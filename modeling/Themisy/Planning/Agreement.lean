import Themisy.Planning.Composition
import Themisy.Planning.Ordering

/-!
# Planners which agree

Two planners agree when their lookups show the same contents. They plan the same
intents, and their plans have the same phases and the same hash, whichever order the
changes are in and the maps are visited in: the phases of a plan are the levels of one
graph, and the steps of a phase have one sorted arrangement.
-/

namespace Themisy.Planning

open Domain Contract

/-- Two planners with the same pinned hashes and references. -/
structure Planner.SameBasis (first second : Planner) : Prop where
  contractHashes : ∀ name, first.contractHashes.get? name = second.contractHashes.get? name
  profileHashes : ∀ name, first.profileHashes.get? name = second.profileHashes.get? name
  contextSnapshotRef : first.contextSnapshotRef = second.contextSnapshotRef
  policyHash : first.policyHash = second.policyHash
  evidenceHash : first.evidenceHash = second.evidenceHash

/-- Two planners which hold the same contents. -/
structure Planner.Agrees (first second : Planner) : Prop extends first.SameBasis second where
  definitions : ∀ name, (first.definitions.get? name).map ServiceDefinition.content =
    (second.definitions.get? name).map ServiceDefinition.content
  profiles : ∀ name, (first.profiles.get? name).map ReleaseProfile.planned =
    (second.profiles.get? name).map ReleaseProfile.planned

/-- The same intent, with its changes in another order. -/
structure Permuted (first second : ReleaseIntent) : Prop where
  rest : { first with changes := [] } = { second with changes := [] }
  changes : first.changes.Perm second.changes

theorem Permuted.refl (intent : ReleaseIntent) : Permuted intent intent :=
  ⟨rfl, List.Perm.refl _⟩

theorem Permuted.symm {first second : ReleaseIntent} (permuted : Permuted first second) :
    Permuted second first :=
  ⟨permuted.rest.symm, permuted.changes.symm⟩

theorem planPhases_eq_of_perm {first second : List PlanStep} (perm : first.Perm second)
    (distinct : (first.map PlanStep.service).Nodup) :
    Planner.planPhases first = Planner.planPhases second := by
  have groups := fun steps : List PlanStep =>
    (Grouping.ofList_groups PlanStep.phase steps)
  have keys : (Grouping.ofList PlanStep.phase first).keys.Perm
      (Grouping.ofList PlanStep.phase second).keys := by
    refine (List.perm_ext_iff_of_nodup (groups first).distinct (groups second).distinct).mpr ?_
    intro number
    rw [(groups first).mem_keys, (groups second).mem_keys]
    simp only [perm.mem_iff]
  have sortedKeys := insertionSort_eq_of_perm id keys fun _ _ _ _ same => same
  simp only [id] at sortedKeys
  simp only [Planner.planPhases, sortedKeys, (groups first).find_eq, (groups second).find_eq]
  refine List.map_congr_left fun number _ => ?_
  congr 1
  refine insertionSort_eq_of_perm PlanStep.service (perm.filter _) ?_
  intro left leftMem right rightMem same
  exact List.inj_on_of_nodup_map distinct (List.mem_of_mem_filter leftMem)
    (List.mem_of_mem_filter rightMem) same

namespace Planner

variable {changes : GoMap String Change} {planner : Planner} {intent : ReleaseIntent}

theorem planIntent_eq_ok (checked : planner.checkIntent intent = .ok changes)
    (acyclic : Acyclic (planner.OrderedAfter intent)) (digest : Digest)
    (order : IterationOrder String) (now : Time) :
    planner.planIntent digest order now intent =
      .ok (planner.orderedPlan digest order now intent changes) := by
  rw [← changeGraph_needs_iff checked] at acyclic
  rw [planIntent_of_checked checked,
    if_pos ((orderChanges_processed_iff planner order changes).mpr acyclic)]

namespace Agrees

variable {first second : Planner} {intent other : ReleaseIntent}
  {changes again : GoMap String Change}

section

variable (agrees : first.Agrees second)

include agrees

theorem symm : second.Agrees first where
  definitions name := (agrees.definitions name).symm
  profiles name := (agrees.profiles name).symm
  contractHashes name := (agrees.contractHashes name).symm
  profileHashes name := (agrees.profileHashes name).symm
  contextSnapshotRef := agrees.contextSnapshotRef.symm
  policyHash := agrees.policyHash.symm
  evidenceHash := agrees.evidenceHash.symm

theorem content_eq (name : String) :
    (first.definition name).content = (second.definition name).content := by
  have same := agrees.definitions name
  simp only [definition, GoMap.find]
  cases found : first.definitions.get? name <;> cases again : second.definitions.get? name <;>
    simp_all

theorem checkIntent (permuted : Permuted intent other)
    (checked : first.checkIntent intent = .ok changes) :
    ∃ again, second.checkIntent other = .ok again ∧
      ∀ name, changes.get? name = again.get? name := by
  have rest := permuted.rest
  simp only [ReleaseIntent.mk.injEq, and_true] at rest
  rw [checkIntent_eq_ok_iff] at checked
  simp only [checkIntent_eq_ok_iff]
  obtain ⟨version, kind, some, environment, plannable, distinct, rfl⟩ := checked
  have distinctAgain := (permuted.changes.map Change.service).nodup_iff.mp distinct
  refine ⟨_, ⟨by rw [← rest.1, version], by rw [← rest.2.1, kind], ?_, ?_, ?_, distinctAgain, rfl⟩,
    ?_⟩
  · exact fun empty => some (permuted.changes.trans (.of_eq empty)).eq_nil
  · rw [← rest.2.2.2.2.2.1]
    exact environment
  · intro change member
    obtain ⟨declared, versioned⟩ := plannable change (permuted.changes.mem_iff.mpr member)
    rw [agrees.definitions, rest.2.2.2.2.2.1] at declared
    exact ⟨declared, versioned⟩
  · refine congrFun ((tabulates_foldl_set distinct fun change => change).eq
      (tabulates_foldl_set distinctAgain fun change => change) ?_ ?_)
    · exact fun change member => ⟨change, permuted.changes.mem_iff.mp member, rfl, rfl⟩
    · exact fun change member => ⟨change, permuted.changes.mem_iff.mpr member, rfl, rfl⟩

theorem orderingDependencies_eq (name : String) :
    (first.definition name).orderingDependencies = (second.definition name).orderingDependencies :=
  congrArg (fun content : DefinitionContent =>
    (content.dependencies.filter Dependency.ordersOn).map Dependency.service)
    (agrees.content_eq name)

end

theorem mem_keys_iff (lookups : ∀ name, changes.get? name = again.get? name) (name : String) :
    name ∈ changes.keys ↔ name ∈ again.keys := by
  rw [← GoMap.isSome_get?_iff, ← GoMap.isSome_get?_iff, lookups]

theorem selectedDependencies_eq (agrees : first.Agrees second)
    (lookups : ∀ name, changes.get? name = again.get? name) (name : String) :
    first.selectedDependencies changes name = second.selectedDependencies again name := by
  simp only [selectedDependencies, agrees.orderingDependencies_eq, lookups]

theorem changeGraph_needs_eq (agrees : first.Agrees second)
    (lookups : ∀ name, changes.get? name = again.get? name) :
    (changeGraph first changes).Needs = (changeGraph second again).Needs := by
  funext name needed
  simp only [Kahn.Graph.Needs, changeGraph, mem_keys_iff lookups,
    agrees.selectedDependencies_eq lookups]

/-- The phases depend on the contents of the planner and not on the order of the maps. -/
theorem orderChanges_phase_eq (agrees : first.Agrees second)
    (lookups : ∀ name, changes.get? name = again.get? name)
    (order orderAgain : IterationOrder String) {name : String} (member : name ∈ changes.keys) :
    (first.orderChanges order changes).phase.find name 0 =
      (second.orderChanges orderAgain again).phase.find name 0 := by
  obtain ⟨children, state, reversed, initial, ⟨names, ready⟩, eq⟩ :=
    exists_orderChanges_eq_drain first order changes
  obtain ⟨childrenAgain, stateAgain, reversedAgain, initialAgain, ⟨namesAgain, readyAgain⟩,
    eqAgain⟩ := exists_orderChanges_eq_drain second orderAgain again
  have needs := agrees.selectedDependencies_eq lookups
  have keys : changes.keys.Perm again.keys :=
    (List.perm_ext_iff_of_nodup changes.keys_nodup again.keys_nodup).mpr (mem_keys_iff lookups)
  have free : state.ready.Perm stateAgain.ready := by
    refine initial.ready.trans (((keys.filter _).trans (.of_eq ?_)).trans initialAgain.ready.symm)
    exact List.filter_congr fun node _ => congrArg (fun list => decide (list = [])) (needs node)
  have sameReady : state.ready = stateAgain.ready := by
    rw [ready, readyAgain] at free ⊢
    exact sortStrings_eq_of_perm
      ((sortStrings_perm _).symm.trans (free.trans (sortStrings_perm _)))
  rw [eq, eqAgain]
  exact Kahn.Graph.phase_drain_congr (mem_keys_iff lookups) needs
    (fun name => congrArg DefinitionContent.releasePhase (agrees.content_eq name))
    (fun _ _ => sortStrings_eq_of_perm) reversed reversedAgain initial initialAgain sameReady
    name member

theorem planStep_eq (agrees : first.Agrees second) (permuted : Permuted intent other)
    (digest : Digest) (phase : ℤ) (name : String) (change : Change) :
    first.planStep digest intent phase name change =
      second.planStep digest other phase name change := by
  have rest := permuted.rest
  simp only [ReleaseIntent.mk.injEq, and_true] at rest
  obtain ⟨-, -, -, -, tenant, environment, region, cluster, -⟩ := rest
  have content := agrees.content_eq name
  have environments : (first.definition name).environments.get? other.environment =
      (second.definition name).environments.get? other.environment :=
    congrFun (congrArg DefinitionContent.environments content) other.environment
  have dependencies : (first.definition name).dependencies =
      (second.definition name).dependencies := congrArg DefinitionContent.dependencies content
  have hash : (first.definition name).contractHash = (second.definition name).contractHash :=
    congrArg DefinitionContent.contractHash content
  have team : (first.definition name).service.ownerTeam =
      (second.definition name).service.ownerTeam := congrArg DefinitionContent.ownerTeam content
  have tier : (first.definition name).service.riskTier =
      (second.definition name).service.riskTier := congrArg DefinitionContent.riskTier content
  have domains : (first.definition name).service.failureDomains =
      (second.definition name).service.failureDomains :=
    congrArg DefinitionContent.failureDomains content
  simp only [planStep, GoMap.find, tenant, environment, region, cluster, environments,
    dependencies, hash, team, tier, domains, agrees.profileHashes]
  generalize (((second.definition name).environments.get? other.environment).getD
    ⟨"", ""⟩).profile = profileName
  have planned := agrees.profiles profileName
  cases found : first.profiles.get? profileName with
  | none =>
    rw [found] at planned
    rw [Option.map_eq_none_iff.mp planned.symm]
  | some profile =>
    rw [found] at planned
    obtain ⟨profileAgain, foundAgain, same⟩ := Option.map_eq_some_iff.mp planned.symm
    rw [foundAgain]
    simp only [ReleaseProfile.planned, PlannedProfile.mk.injEq] at same
    simp only [same]

section Orders

variable (digest : Digest) (order orderAgain : IterationOrder String)

section

variable (agrees : first.Agrees second) (permuted : Permuted intent other)

include agrees permuted

theorem plannedSteps_perm (lookups : ∀ name, changes.get? name = again.get? name) :
    (first.plannedSteps digest order intent changes).Perm
      (second.plannedSteps digest orderAgain other again) := by
  have keys : changes.keys.Perm again.keys :=
    (List.perm_ext_iff_of_nodup changes.keys_nodup again.keys_nodup).mpr (mem_keys_iff lookups)
  have names : (order.arrange 2 changes.keys).Perm (orderAgain.arrange 2 again.keys) :=
    (order.perm 2 _).trans (keys.trans (orderAgain.perm 2 _).symm)
  refine (names.map _).trans (List.Perm.of_eq (List.map_congr_left fun name member => ?_))
  have change : changes.find name default = again.find name default := by
    rw [GoMap.find, GoMap.find, lookups]
  rw [agrees.planStep_eq permuted, change, agrees.orderChanges_phase_eq lookups order orderAgain
    ((mem_keys_iff lookups name).mpr ((orderAgain.mem_arrange 2 again.keys name).mp member))]

theorem planHash_assemblePlan_eq
    {steps replanned : List PlanStep} (phases : planPhases steps = planPhases replanned)
    (now later : Time) :
    (first.assemblePlan digest now intent steps).planHash =
      (second.assemblePlan digest later other replanned).planHash := by
  have rest := permuted.rest
  simp only [ReleaseIntent.mk.injEq, and_true] at rest
  have contracts : Json.ofMap Json.text first.contractHashes =
      Json.ofMap Json.text second.contractHashes :=
    Json.ofMap_congr fun name => congrArg _ (agrees.contractHashes name)
  have profiles : Json.ofMap Json.text first.profileHashes =
      Json.ofMap Json.text second.profileHashes :=
    Json.ofMap_congr fun name => congrArg _ (agrees.profileHashes name)
  simp only [assemblePlan, planHash, phases, contracts, profiles, agrees.contextSnapshotRef,
    agrees.policyHash, agrees.evidenceHash, rest]

theorem planIntent (later : Time) {now : Time} {plan : ReleasePlan}
    (planned : first.planIntent digest order now intent = .ok plan) :
    ∃ replanned, second.planIntent digest orderAgain later other = .ok replanned ∧
      replanned.phases = plan.phases ∧ replanned.planHash = plan.planHash ∧
      replanned.id = plan.id := by
  obtain ⟨changes, checked, acyclic, rfl⟩ := exists_changes_of_planIntent planned
  obtain ⟨again, checkedAgain, lookups⟩ := agrees.checkIntent permuted checked
  rw [← changeGraph_needs_iff checked] at acyclic
  have acyclicAgain : Acyclic (second.OrderedAfter other) := by
    rwa [agrees.changeGraph_needs_eq lookups, changeGraph_needs_iff checkedAgain] at acyclic
  have steps := agrees.plannedSteps_perm digest order orderAgain permuted lookups
  have distinct : ((first.plannedSteps digest order intent changes).map
      PlanStep.service).Nodup := by
    rw [map_service_plannedSteps]
    exact (order.perm 2 changes.keys).nodup_iff.mpr changes.keys_nodup
  have phases := planPhases_eq_of_perm steps distinct
  have hash := agrees.planHash_assemblePlan_eq digest permuted phases now later
  exact ⟨_, planIntent_eq_ok checkedAgain acyclicAgain digest orderAgain later, phases.symm,
    hash.symm, congrArg (fun hash => "plan_" ++ shortHash hash) hash.symm⟩

end

end Orders

end Agrees

end Planner

/-- Every document of the first list has a counterpart with the same encoding. -/
def Covered {Document : Type} (name : Document → String) (canonical : Document → Json)
    (first second : List Document) : Prop :=
  ∀ document ∈ first, ∃ other ∈ second,
    name other = name document ∧ canonical other = canonical document

theorem Covered.eq {Document Value : Type} {name : Document → String} {canonical : Document → Json}
    {first second : List Document} {lookup again : String → Option Value}
    {value otherValue : Document → Value} (forth : Covered name canonical first second)
    (back : Covered name canonical second first) (tabulates : Tabulates lookup first name value)
    (tabulated : Tabulates again second name otherValue)
    (determined : ∀ document ∈ first, ∀ other ∈ second, name other = name document →
      canonical other = canonical document → otherValue other = value document) :
    lookup = again := by
  refine tabulates.eq tabulated (fun document member => ?_) (fun document member => ?_)
  · obtain ⟨other, otherMem, named, encoded⟩ := forth document member
    exact ⟨other, otherMem, named, determined document member other otherMem named encoded⟩
  · obtain ⟨other, otherMem, named, encoded⟩ := back document member
    exact ⟨other, otherMem, named,
      (determined other otherMem document member named.symm encoded.symm).symm⟩

section Composed

variable {digest : Digest} {contracts contractsAgain : List ServiceContract}
  {profiles profilesAgain : List ReleaseProfile} {options optionsAgain : Options}
  {phase phaseAgain : String → ℤ} {planner other : Planner}

theorem mem_orderingDependencies_of_canonical_eq {first second : ServiceContract}
    (same : first.canonical = second.canonical) {name : String} :
    name ∈ first.orderingDependencies ↔ name ∈ second.orderingDependencies := by
  rw [ServiceContract.mem_orderingDependencies_iff, ServiceContract.mem_orderingDependencies_iff,
    ← PlannedContract.ofJson_canonical, same, PlannedContract.ofJson_canonical]

theorem IsOrdering.same {graph graphAgain : Kahn.Graph String}
    (ordering : IsOrdering contracts graph) (orderingAgain : IsOrdering contractsAgain graphAgain)
    (forth : Covered ServiceContract.name ServiceContract.canonical contracts contractsAgain)
    (back : Covered ServiceContract.name ServiceContract.canonical contractsAgain contracts) :
    graph.Same graphAgain where
  nodes name := by
    rw [ordering.nodes, orderingAgain.nodes, List.mem_map, List.mem_map]
    constructor
    · rintro ⟨contract, member, rfl⟩
      obtain ⟨other, otherMem, named, -⟩ := forth contract member
      exact ⟨other, otherMem, named⟩
    · rintro ⟨contract, member, rfl⟩
      obtain ⟨other, otherMem, named, -⟩ := back contract member
      exact ⟨other, otherMem, named⟩
  needs name member needed := by
    obtain ⟨contract, contractMem, rfl⟩ := List.mem_map.mp ((ordering.nodes name).mp member)
    obtain ⟨other, otherMem, named, same⟩ := forth contract contractMem
    rw [ordering.needs contract contractMem, ← named, orderingAgain.needs other otherMem]
    exact mem_orderingDependencies_of_canonical_eq same.symm
  base name _ := by rw [ordering.base, orderingAgain.base]

/-- Planners built from the same documents with the same settings agree. -/
theorem Composed.agrees (composed : Composed digest contracts profiles options phase planner)
    (composedAgain :
      Composed digest contractsAgain profilesAgain optionsAgain phaseAgain other)
    (forth : Covered ServiceContract.name ServiceContract.canonical contracts contractsAgain)
    (back : Covered ServiceContract.name ServiceContract.canonical contractsAgain contracts)
    (profilesForth : Covered ReleaseProfile.name ReleaseProfile.canonical profiles profilesAgain)
    (profilesBack : Covered ReleaseProfile.name ReleaseProfile.canonical profilesAgain profiles)
    (contextSnapshotRef : planner.contextSnapshotRef = other.contextSnapshotRef)
    (policyHash : planner.policyHash = other.policyHash)
    (evidenceHash : planner.evidenceHash = other.evidenceHash) : planner.Agrees other := by
  obtain ⟨graph, ordering, acyclic, levelled⟩ := composed.ordering
  obtain ⟨graphAgain, orderingAgain, acyclicAgain, levelledAgain⟩ := composedAgain.ordering
  have same := ordering.same orderingAgain forth back
  have phases : ∀ contract ∈ contractsAgain, phase contract.name = phaseAgain contract.name := by
    intro contract member
    refine (same.levelled levelled).eq levelledAgain acyclicAgain contract.name ?_
    exact (orderingAgain.nodes _).mpr (List.mem_map_of_mem member)
  refine ⟨⟨congrFun ?_, congrFun ?_, contextSnapshotRef, policyHash, evidenceHash⟩, congrFun ?_,
    congrFun ?_⟩
  · exact forth.eq back composed.contractHashes composedAgain.contractHashes
      fun _ _ _ _ _ encoded => congrArg digest.hashValue encoded
  · exact profilesForth.eq profilesBack composed.profileHashes composedAgain.profileHashes
      fun _ _ _ _ _ encoded => congrArg digest.hashValue encoded
  · refine forth.eq back composed.definitions composedAgain.definitions ?_
    intro contract _ other otherMem named encoded
    rw [← phases other otherMem, named]
    exact contractContent_eq_of_canonical_eq encoded digest _
  · exact profilesForth.eq profilesBack composed.profileContents composedAgain.profileContents
      fun _ _ _ _ _ encoded => ReleaseProfile.planned_eq_of_canonical_eq encoded

end Composed

end Themisy.Planning
