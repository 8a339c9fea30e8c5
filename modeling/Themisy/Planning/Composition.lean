import Themisy.Collections.Registration
import Themisy.Contract.Content
import Themisy.Graph.Levels
import Themisy.Planning.Built

/-!
# What a planner holds

`newFromContracts` accepts a set of contracts and profiles by conditions which do not
mention the order of the lists or of the maps: every document is valid and carries its
own hash, names are distinct, references lead somewhere, and the ordering
dependencies have no cycle. The planner it returns then holds, under the name of
each contract, the planned content of that contract and its level in the graph of
the ordering dependencies.
-/

namespace Themisy.Planning

open Domain Contract

def contractContent (digest : Digest) (phase : ℤ) (contract : ServiceContract) :
    DefinitionContent where
  releasePhase := phase
  ownerTeam := contract.owner
  riskTier := contract.riskTier
  failureDomains := ((sortedDependencies contract.dependencies).filter fun dependency =>
    dependency.type = .sharedFailureDomain ∧ dependency.resource ≠ "").map Dependency.resource
  dependencies := sortedDependencies contract.dependencies
  environments environment := (contract.environments.get? environment.text).map fun declared =>
    ⟨declared.releaseProfile, declared.runnerGroup⟩
  contractHash := contract.hash digest

/-- The canonical encoding of a contract determines all that plans take from it. -/
theorem contractContent_eq_of_canonical_eq {first second : ServiceContract}
    (same : first.canonical = second.canonical) (digest : Digest) (phase : ℤ) :
    contractContent digest phase first = contractContent digest phase second := by
  have planned : first.planned = second.planned := by
    rw [← PlannedContract.ofJson_canonical, same, PlannedContract.ofJson_canonical]
  have owner : first.owner = second.owner := congrArg PlannedContract.owner planned
  have tier : first.riskTier = second.riskTier := congrArg PlannedContract.riskTier planned
  have dependencies : sortedDependencies first.dependencies =
      sortedDependencies second.dependencies := congrArg PlannedContract.dependencies planned
  have environments : ∀ environment : Environment,
      (contractContent digest phase first).environments environment =
        (contractContent digest phase second).environments environment := by
    intro environment
    have lookups := congrFun (congrArg PlannedContract.environments planned) environment.text
    have mapped := congrArg (Option.map fun planned : PlannedEnvironment =>
      (⟨planned.releaseProfile, planned.runnerGroup⟩ : EnvironmentDefinition)) lookups
    simpa only [contractContent, ServiceContract.planned, Option.map_map, Function.comp_def]
      using mapped
  have hash : first.hash digest = second.hash digest := by
    rw [ServiceContract.hash, ServiceContract.hash, same]
  simp only [contractContent, DefinitionContent.mk.injEq, owner, tier, dependencies, hash,
    true_and, and_true]
  exact funext environments

/-- The profile is valid and has not been changed. -/
structure Ready (digest : Digest) (profile : ReleaseProfile) : Prop where
  valid : profile.validate = .ok ()
  unchanged : profile.contentHash = "" ∨ profile.contentHash = profile.hash digest

theorem registerProfile_registers (digest : Digest) :
    Registers (registerProfile digest) ReleaseProfile.name (Ready digest)
      (fun profiles name => (profiles.byName.get? name).isSome)
      (fun profiles profile =>
        ⟨profiles.byName.set profile.name { profile with contentHash := profile.hash digest },
          profiles.hashes.set profile.name (profile.hash digest)⟩) := by
  constructor
  · intro profiles profile next
    simp only [registerProfile, bind_eq_ok, require_eq_ok, exists_const, Bool.not_eq_true,
      Option.isSome_eq_false_iff, Option.isNone_iff_eq_none]
    constructor
    · rintro ⟨_, valid, free, unchanged, returned⟩
      exact ⟨⟨valid, unchanged⟩, free, (Except.ok.inj returned).symm⟩
    · rintro ⟨⟨valid, unchanged⟩, free, rfl⟩
      exact ⟨(), valid, free, unchanged, rfl⟩
  · intro profiles profile other
    simp only [GoMap.get?_set]
    split
    · next same => simp [same]
    · next different => simp [different]

/-- The profile of an environment exists and requires no more than the environment offers. -/
def Served (profiles : GoMap String ReleaseProfile) (environment : EnvironmentContract) : Prop :=
  ∃ profile, profiles.get? environment.releaseProfile = some profile ∧
    ∀ capability ∈ profile.requiredCapabilities, capability ∈ environment.capabilities

theorem missingCapabilities_eq_nil_iff {actual required : List Capability} :
    missingCapabilities actual required = [] ↔ ∀ capability ∈ required, capability ∈ actual := by
  have perm := List.perm_insertionSort
    (fun left right : Capability => left.text ≤ right.text)
    (required.filter fun capability => capability ∉ actual)
  rw [missingCapabilities, sortedCapabilities, ← List.length_eq_zero_iff, perm.length_eq,
    List.length_eq_zero_iff, List.filter_eq_nil_iff]
  simp

variable {profiles : GoMap String ReleaseProfile}

theorem registerEnvironment_eq_ok_iff
    {environments next : GoMap Environment EnvironmentDefinition} {entry : EnvironmentEntry} :
    registerEnvironment profiles environments entry = .ok next ↔ Served profiles entry.2 ∧
      next = environments.set (.ofText entry.1) ⟨entry.2.releaseProfile, entry.2.runnerGroup⟩ := by
  unfold registerEnvironment Served
  split
  · next missing => simp [missing]
  · next profile found =>
    simp only [bind_eq_ok, require_eq_ok, exists_const, missingCapabilities_eq_nil_iff, found,
      Option.some.injEq, exists_eq_left']
    exact and_congr_right fun _ => ⟨fun same => (Except.ok.inj same).symm, fun same => same ▸ rfl⟩

/-- The environments of a definition, stored in the order in which they are visited. -/
def environmentTable (orders : Orders) (contract : ServiceContract) :
    GoMap Environment EnvironmentDefinition :=
  (orders.environments.arrange 1 contract.environments.entries).foldl (fun environments entry =>
    GoMap.set environments (.ofText entry.1) ⟨entry.2.releaseProfile, entry.2.runnerGroup⟩) ∅

theorem get?_environmentTable (orders : Orders) (contract : ServiceContract)
    (environment : Environment) : (environmentTable orders contract).get? environment =
      (contract.environments.get? environment.text).map fun declared =>
        ⟨declared.releaseProfile, declared.runnerGroup⟩ := by
  have distinct : ((orders.environments.arrange 1 contract.environments.entries).map
      fun entry => Environment.ofText entry.1).Nodup := by
    have perm := (orders.environments.perm 1 contract.environments.entries).map
      fun entry => Environment.ofText entry.1
    refine perm.nodup_iff.mpr ?_
    have texts := (List.nodup_map_iff_inj_on contract.environments.nodupKeys.of_map).mp
      contract.environments.nodupKeys
    refine List.Nodup.map_on (fun first firstMem second secondMem same => ?_)
      contract.environments.nodupKeys.of_map
    apply texts first firstMem second secondMem
    rw [← Environment.text_ofText first.1, same, Environment.text_ofText]
  apply Option.ext
  intro definition
  rw [environmentTable, tabulates_foldl_set distinct, Option.map_eq_some_iff]
  simp only [orders.environments.mem_arrange]
  constructor
  · rintro ⟨entry, member, rfl, rfl⟩
    rw [Environment.text_ofText]
    exact ⟨entry.2, GoMap.mem_entries_iff.mp member, rfl⟩
  · rintro ⟨declared, found, rfl⟩
    exact ⟨⟨environment.text, declared⟩, GoMap.mem_entries_iff.mpr found,
      Environment.ofText_text environment, rfl⟩

theorem registerEnvironments_eq_ok_iff {orders : Orders} {contract : ServiceContract}
    {result : GoMap Environment EnvironmentDefinition} :
    (orders.environments.arrange 1 contract.environments.entries).foldlM
        (registerEnvironment profiles) ∅ = .ok result ↔
      (∀ name environment, contract.environments.get? name = some environment →
        Served profiles environment) ∧ result = environmentTable orders contract := by
  rw [foldlM_eq_ok_iff_of_checked (fun entry : EnvironmentEntry => Served profiles entry.2)
    fun _ _ _ => registerEnvironment_eq_ok_iff, ServiceContract.forall_mem_arrange]
  rfl

/-- The contract is valid, unchanged and has its profiles. -/
structure Admissible (digest : Digest) (profiles : GoMap String ReleaseProfile)
    (contract : ServiceContract) : Prop where
  valid : contract.validate .stored = .ok ()
  unchanged : contract.contentHash = "" ∨ contract.contentHash = contract.hash digest
  served : ∀ name environment, contract.environments.get? name = some environment →
    Served profiles environment

def storeContract (digest : Digest) (orders : Orders) (catalog : Catalog)
    (contract : ServiceContract) : Catalog :=
  catalog.register contract.name
    (contractDefinition digest contract (environmentTable orders contract))

theorem registerContract_registers (digest : Digest) (orders : Orders)
    (profiles : GoMap String ReleaseProfile) :
    Registers (registerContract digest orders profiles) ServiceContract.name
      (Admissible digest profiles) (fun catalog name => (catalog.definitions.get? name).isSome)
      (storeContract digest orders) := by
  constructor
  · intro catalog contract next
    simp only [registerContract, bind_eq_ok, require_eq_ok, exists_const,
      registerEnvironments_eq_ok_iff, Bool.not_eq_true, Option.isSome_eq_false_iff,
      Option.isNone_iff_eq_none]
    constructor
    · rintro ⟨_, valid, free, unchanged, _, ⟨served, rfl⟩, returned⟩
      refine ⟨⟨?_, unchanged, served⟩, free, (Except.ok.inj returned).symm⟩
      exact (ServiceContract.validate_eq_ok_iff _ _).mp valid
    · rintro ⟨⟨valid, unchanged, served⟩, free, rfl⟩
      exact ⟨(), (ServiceContract.validate_eq_ok_iff _ _).mp valid, free, unchanged, _,
        ⟨served, rfl⟩, rfl⟩
  · intro catalog contract other
    simp only [storeContract, Catalog.register, GoMap.get?_set]
    split
    · next same => simp [same]
    · next different => simp [different]

section Stored

variable {contracts : List ServiceContract} {profiles : List ReleaseProfile}

def storedProfiles (digest : Digest) (profiles : List ReleaseProfile) : Profiles :=
  profiles.foldl (fun stored profile =>
    ⟨stored.byName.set profile.name { profile with contentHash := profile.hash digest },
      stored.hashes.set profile.name (profile.hash digest)⟩) {}

theorem tabulates_storedProfiles (digest : Digest)
    (distinct : (profiles.map ReleaseProfile.name).Nodup) :
    Tabulates (storedProfiles digest profiles).byName.get? profiles ReleaseProfile.name
        (fun profile => { profile with contentHash := profile.hash digest }) ∧
      Tabulates (storedProfiles digest profiles).hashes.get? profiles ReleaseProfile.name
        (ReleaseProfile.hash digest) := by
  have byName : (storedProfiles digest profiles).byName = profiles.foldl (fun table profile =>
      GoMap.set table profile.name { profile with contentHash := profile.hash digest }) ∅ :=
    (List.foldl_hom Profiles.byName fun _ _ => rfl).symm
  have hashes : (storedProfiles digest profiles).hashes = profiles.foldl (fun table profile =>
      GoMap.set table profile.name (profile.hash digest)) ∅ :=
    (List.foldl_hom Profiles.hashes fun _ _ => rfl).symm
  rw [byName, hashes]
  exact ⟨tabulates_foldl_set distinct _, tabulates_foldl_set distinct _⟩

def storedCatalog (digest : Digest) (orders : Orders) (contracts : List ServiceContract) :
    Catalog :=
  contracts.foldl (storeContract digest orders) {}

theorem tabulates_storedCatalog (digest : Digest) (orders : Orders)
    (distinct : (contracts.map ServiceContract.name).Nodup) :
    Tabulates (storedCatalog digest orders contracts).definitions.get? contracts
        ServiceContract.name
        (fun contract => contractDefinition digest contract (environmentTable orders contract)) ∧
      Tabulates (storedCatalog digest orders contracts).contractHashes.get? contracts
        ServiceContract.name (ServiceContract.hash digest) := by
  have definitions : (storedCatalog digest orders contracts).definitions =
      contracts.foldl (fun table contract => GoMap.set table contract.name
        (contractDefinition digest contract (environmentTable orders contract))) ∅ :=
    (List.foldl_hom Catalog.definitions fun _ _ => rfl).symm
  have hashes : (storedCatalog digest orders contracts).contractHashes =
      contracts.foldl (fun table contract =>
        GoMap.set table contract.name (contract.hash digest)) ∅ :=
    (List.foldl_hom Catalog.contractHashes fun _ _ => rfl).symm
  rw [definitions, hashes]
  exact ⟨tabulates_foldl_set distinct _, tabulates_foldl_set distinct _⟩

theorem content_contractDefinition (digest : Digest) (orders : Orders)
    (contract : ServiceContract) :
    (contractDefinition digest contract (environmentTable orders contract)).content =
      contractContent digest 0 contract := by
  simp only [contractDefinition, ServiceDefinition.content, contractContent,
    DefinitionContent.mk.injEq, true_and, and_true]
  exact funext (get?_environmentTable orders contract)

end Stored

namespace Catalog

/-- Both maps of a catalog hold the same services. -/
def Linked (catalog : Catalog) : Prop :=
  ∀ name, catalog.services.get? name =
    (catalog.definitions.get? name).map ServiceDefinition.service

variable {catalog : Catalog} {phases : GoMap String ℤ} {name : String}

theorem Linked.register (linked : catalog.Linked) (name : String)
    (definition : ServiceDefinition) : (catalog.register name definition).Linked := by
  intro query
  simp only [Catalog.register, GoMap.get?_set]
  split
  · rfl
  · exact linked query

theorem linked_storedCatalog (digest : Digest) (orders : Orders)
    (contracts : List ServiceContract) : (storedCatalog digest orders contracts).Linked := by
  have start : Linked {} := fun _ => rfl
  exact List.foldlRecOn contracts _ start fun catalog linked contract _ => linked.register _ _

theorem Linked.setPhase (linked : catalog.Linked) (phases : GoMap String ℤ) (name : String) :
    (catalog.setPhase phases name).Linked := by
  intro query
  simp only [Catalog.setPhase, GoMap.get?_set]
  split
  · rfl
  · exact linked query

/-- The content of a service after the phases of some services were stored. -/
def phased (phases : GoMap String ℤ) (names : List String) (name : String)
    (content : DefinitionContent) : DefinitionContent :=
  if name ∈ names then { content with releasePhase := phases.find name 0 } else content

theorem content_setPhase (phases : GoMap String ℤ) (linked : catalog.Linked)
    (defined : (catalog.definitions.get? name).isSome) (query : String) :
    ((catalog.setPhase phases name).definitions.get? query).map ServiceDefinition.content =
      ((catalog.definitions.get? query).map ServiceDefinition.content).map
        (phased phases [name] query) := by
  obtain ⟨definition, found⟩ := Option.isSome_iff_exists.mp defined
  have service := linked name
  rw [found] at service
  simp only [Catalog.setPhase, GoMap.get?_set, GoMap.find, found, service]
  by_cases same : query = name
  · subst same
    simp [found, phased, ServiceDefinition.content, GoMap.find]
  · have unchanged : phased phases [name] query = id := by
      funext content
      simp [phased, same]
    rw [if_neg same, unchanged, Option.map_id, id]

theorem content_foldl_setPhase (phases : GoMap String ℤ) {names : List String}
    (linked : catalog.Linked)
    (defined : ∀ name ∈ names, (catalog.definitions.get? name).isSome) (query : String) :
    ((names.foldl (Catalog.setPhase phases) catalog).definitions.get? query).map
        ServiceDefinition.content =
      ((catalog.definitions.get? query).map ServiceDefinition.content).map
        (phased phases names query) := by
  induction names generalizing catalog with
  | nil =>
    have unchanged : phased phases [] query = id := rfl
    rw [unchanged, Option.map_id, id]
    rfl
  | cons name rest ih =>
    have here := content_setPhase phases linked (defined name List.mem_cons_self)
    have still : ∀ other ∈ rest,
        ((catalog.setPhase phases name).definitions.get? other).isSome := by
      intro other member
      have content := congrArg Option.isSome (here other)
      simp only [Option.isSome_map] at content
      rw [content]
      exact defined other (List.mem_cons_of_mem _ member)
    rw [List.foldl_cons, ih (linked.setPhase phases name) still, here query, Option.map_map]
    congr 1
    funext content
    by_cases first : query = name <;> by_cases later : query ∈ rest <;>
      simp [phased, first, later]

theorem contractHashes_foldl_setPhase (phases : GoMap String ℤ) (names : List String)
    (catalog : Catalog) :
    (names.foldl (Catalog.setPhase phases) catalog).contractHashes = catalog.contractHashes := by
  induction names generalizing catalog with
  | nil => rfl
  | cons name rest ih => exact ih (catalog.setPhase phases name)

end Catalog

/-- All ordering dependencies are defined. -/
def Closed (definitions : GoMap String ServiceDefinition) : Prop :=
  ∀ name ∈ definitions.keys,
    ∀ needed ∈ (definitions.find name .zero).orderingDependencies, needed ∈ definitions.keys

/-- The services with their ordering dependencies. -/
def orderingGraph (definitions : GoMap String ServiceDefinition) (closed : Closed definitions) :
    Kahn.Graph String where
  nodes := definitions.keys
  needs name := (definitions.find name .zero).orderingDependencies
  base _ := 0
  distinct := definitions.keys_nodup
  closed

section OrderingGraph

variable {definitions : GoMap String ServiceDefinition} (closed : Closed definitions)
  (order : IterationOrder String)

theorem exists_globalPhases_eq_drain :
    ∃ children state, (orderingGraph definitions closed).Reversed children ∧
      (orderingGraph definitions closed).Initial state ∧
      validateGlobalOrderingGraph order definitions =
        if (Kahn.State.drain stack children state).processed ≠ definitions.keys.length then
          .error (orderingCycle "dependencies" "service contracts contain an ordering cycle")
        else .ok (Kahn.State.drain stack children state).phase := by
  refine ⟨_, _, Kahn.Edges.read_reversed (orderingGraph definitions closed)
    (order.perm 2 definitions.keys), ?_, rfl⟩
  apply Kahn.Edges.read_initial (orderingGraph definitions closed)
    (order.perm 2 definitions.keys)
  · exact fun name _ => GoMap.find_empty name 0
  · exact (order.perm 3 definitions.keys).filter _

theorem globalPhases_isOk_iff :
    (∃ phases, validateGlobalOrderingGraph order definitions = .ok phases) ↔
      Acyclic (orderingGraph definitions closed).Needs := by
  obtain ⟨children, state, reversed, initial, eq⟩ := exists_globalPhases_eq_drain closed order
  rw [eq, ← Kahn.Graph.processed_drain_eq_iff reversed initial stack]
  change _ ↔ _ = definitions.keys.length
  by_cases all : (Kahn.State.drain stack children state).processed = definitions.keys.length
  · simp [all]
  · simp [all]

theorem globalPhases_levelled {phases : GoMap String ℤ}
    (ordered : validateGlobalOrderingGraph order definitions = .ok phases) :
    (orderingGraph definitions closed).Levelled fun name => phases.find name 0 := by
  have acyclic := (globalPhases_isOk_iff closed order).mp ⟨phases, ordered⟩
  obtain ⟨children, state, reversed, initial, eq⟩ := exists_globalPhases_eq_drain closed order
  rw [eq] at ordered
  split at ordered
  · cases ordered
  · cases ordered
    exact Kahn.Graph.levelled_drain reversed initial stack (fun _ _ _ _ _ _ => rfl) acyclic

end OrderingGraph

/-- One service has to be released after another one by its contract. -/
def OrderedOn (contracts : List ServiceContract) (name needed : String) : Prop :=
  ∃ contract ∈ contracts, contract.name = name ∧ needed ∈ contract.orderingDependencies

/-- Every dependency on a service leads to one of the contracts. -/
def Known (contracts : List ServiceContract) : Prop :=
  ∀ contract ∈ contracts, ∀ dependency ∈ contract.dependencies,
    dependency.service = "" ∨ dependency.service ∈ contracts.map ServiceContract.name

/-- The checks of the constructor apart from the one for cycles. -/
structure Checked (digest : Digest) (contracts : List ServiceContract)
    (profiles : List ReleaseProfile) : Prop where
  nonempty : contracts ≠ []
  ready : ∀ profile ∈ profiles, Ready digest profile
  profilesDistinct : (profiles.map ReleaseProfile.name).Nodup
  admissible : ∀ contract ∈ contracts,
    Admissible digest (storedProfiles digest profiles).byName contract
  distinct : (contracts.map ServiceContract.name).Nodup
  known : Known contracts

/-- The documents from which a planner is built, whatever their order. -/
structure Accepted (digest : Digest) (contracts : List ServiceContract)
    (profiles : List ReleaseProfile) : Prop extends Checked digest contracts profiles where
  acyclic : Acyclic (OrderedOn contracts)

section Catalogs

variable (digest : Digest) (orders : Orders) {contracts : List ServiceContract}
  (distinct : (contracts.map ServiceContract.name).Nodup)

include distinct

variable {name : String} {contract : ServiceContract}

theorem storedCatalog_isSome_iff :
    ((storedCatalog digest orders contracts).definitions.get? name).isSome ↔
      name ∈ contracts.map ServiceContract.name :=
  (tabulates_storedCatalog digest orders distinct).1.isSome_iff

theorem mem_keys_storedCatalog :
    name ∈ (storedCatalog digest orders contracts).definitions.keys ↔
      name ∈ contracts.map ServiceContract.name := by
  rw [← storedCatalog_isSome_iff digest orders distinct]
  exact GoMap.isSome_get?_iff.symm

theorem storedCatalog_find (member : contract ∈ contracts) :
    (storedCatalog digest orders contracts).definitions.find contract.name .zero =
      contractDefinition digest contract (environmentTable orders contract) := by
  rw [GoMap.find, (tabulates_storedCatalog digest orders distinct).1.eq_some member]
  rfl

theorem mem_storedDependencies (member : contract ∈ contracts) {dependency : Dependency} :
    dependency ∈ ((storedCatalog digest orders contracts).definitions.find contract.name
      .zero).dependencies ↔ dependency ∈ contract.dependencies := by
  rw [storedCatalog_find digest orders distinct member]
  exact (List.perm_insertionSort _ contract.dependencies).mem_iff

theorem mem_storedOrderingDependencies (member : contract ∈ contracts) {needed : String} :
    needed ∈ ((storedCatalog digest orders contracts).definitions.find contract.name
      .zero).orderingDependencies ↔ needed ∈ contract.orderingDependencies := by
  simp only [ServiceDefinition.orderingDependencies, ServiceContract.orderingDependencies,
    List.mem_map, List.mem_filter, mem_storedDependencies digest orders distinct member]

theorem knownDependencies_eq_ok_iff {value : Unit} :
    ((orders.names.arrange 0 (storedCatalog digest orders contracts).definitions.keys).forM
        fun name => ((storedCatalog digest orders contracts).definitions.find name
          .zero).dependencies.forM fun dependency =>
          require (dependency.service = "" ∨
              ((storedCatalog digest orders contracts).definitions.get? dependency.service).isSome)
            (newReasonError .unknownDependency ("services." ++ name ++ ".dependencies")
              ("service " ++ GoText.quote dependency.service ++ " does not exist"))) = .ok value ↔
      Known contracts := by
  simp only [forM_eq_ok, orders.names.mem_arrange, require_eq_ok,
    mem_keys_storedCatalog digest orders distinct, storedCatalog_isSome_iff digest orders distinct,
    List.forall_mem_map]
  refine forall_congr' fun contract => forall_congr' fun member => ?_
  simp only [mem_storedDependencies digest orders distinct member]

/-- The ordering dependencies of the catalog lead to services of the catalog. -/
theorem storedCatalog_closed (known : Known contracts) :
    Closed (storedCatalog digest orders contracts).definitions := by
  simp only [Closed, mem_keys_storedCatalog digest orders distinct, List.forall_mem_map]
  intro contract member needed orders
  rw [mem_storedOrderingDependencies digest _ distinct member] at orders
  obtain ⟨dependency, selected, rfl⟩ := List.mem_map.mp orders
  obtain ⟨declared, ordering⟩ := List.mem_filter.mp selected
  rcases known contract member dependency declared with empty | named
  · simp [Dependency.ordersOn, empty] at ordering
  · exact named

end Catalogs

/-- The graph of the ordering dependencies of contracts. -/
structure IsOrdering (contracts : List ServiceContract) (graph : Kahn.Graph String) : Prop where
  nodes : ∀ name, name ∈ graph.nodes ↔ name ∈ contracts.map ServiceContract.name
  needs : ∀ contract ∈ contracts, ∀ needed,
    needed ∈ graph.needs contract.name ↔ needed ∈ contract.orderingDependencies
  base : ∀ name, graph.base name = 0

theorem IsOrdering.needs_eq {contracts : List ServiceContract} {graph : Kahn.Graph String}
    (ordering : IsOrdering contracts graph) : graph.Needs = OrderedOn contracts := by
  funext name needed
  simp only [Kahn.Graph.Needs, OrderedOn, ordering.nodes, List.mem_map, eq_iff_iff]
  constructor
  · rintro ⟨⟨contract, member, rfl⟩, needs⟩
    exact ⟨contract, member, rfl, (ordering.needs contract member needed).mp needs⟩
  · rintro ⟨contract, member, rfl, orders⟩
    exact ⟨⟨contract, member, rfl⟩, (ordering.needs contract member needed).mpr orders⟩

/-- What the planner of some documents holds, with the services in their phases. -/
structure Composed (digest : Digest) (contracts : List ServiceContract)
    (profiles : List ReleaseProfile) (options : Options) (phase : String → ℤ)
    (planner : Planner) : Prop where
  definitions : Tabulates
    (fun name => (planner.definitions.get? name).map ServiceDefinition.content) contracts
    ServiceContract.name fun contract => contractContent digest (phase contract.name) contract
  profileContents : Tabulates
    (fun name => (planner.profiles.get? name).map ReleaseProfile.planned) profiles
    ReleaseProfile.name ReleaseProfile.planned
  contractHashes : Tabulates planner.contractHashes.get? contracts ServiceContract.name
    (ServiceContract.hash digest)
  profileHashes : Tabulates planner.profileHashes.get? profiles ReleaseProfile.name
    (ReleaseProfile.hash digest)
  settings : planner = newPlanner digest planner.services planner.definitions planner.profiles
    planner.contractHashes planner.profileHashes options
  ordering : ∃ graph, IsOrdering contracts graph ∧ Acyclic graph.Needs ∧ graph.Levelled phase

section NewFromContracts

variable {digest : Digest} {orders : Orders} {contracts : List ServiceContract}
  {profiles : List ReleaseProfile} {options : Options}

theorem isOrdering_orderingGraph (distinct : (contracts.map ServiceContract.name).Nodup)
    (closed : Closed (storedCatalog digest orders contracts).definitions) :
    IsOrdering contracts (orderingGraph (storedCatalog digest orders contracts).definitions closed)
    where
  nodes _ := mem_keys_storedCatalog digest orders distinct
  needs _ member _ := mem_storedOrderingDependencies digest orders distinct member
  base _ := rfl

variable {planner : Planner}

theorem no_profile (name : String) : ¬((({} : Profiles).byName.get? name).isSome : Prop) := by
  simp

theorem no_definition (name : String) :
    ¬((({} : Catalog).definitions.get? name).isSome : Prop) := by
  simp

/-- The constructor returns, given that the documents are accepted. -/
theorem newFromContracts_eq_ok_iff :
    newFromContracts digest orders contracts profiles options = .ok planner ↔
      Accepted digest contracts profiles ∧ ∃ phases,
        validateGlobalOrderingGraph orders.names
          (storedCatalog digest orders contracts).definitions = .ok phases ∧
        let final := (orders.names.arrange 4 phases.keys).foldl (Catalog.setPhase phases)
          (storedCatalog digest orders contracts)
        planner = newPlanner digest final.services final.definitions
          (storedProfiles digest profiles).byName final.contractHashes
          (storedProfiles digest profiles).hashes options := by
  simp only [newFromContracts, bind_eq_ok, require_eq_ok, exists_const,
    (registerProfile_registers digest).foldlM_empty_eq_ok_iff no_profile,
    (registerContract_registers digest orders _).foldlM_empty_eq_ok_iff no_definition]
  constructor
  · rintro ⟨nonempty, _, ⟨ready, profilesDistinct, rfl⟩, _, ⟨admissible, distinct, rfl⟩, _, known,
      phases, ordered, returned⟩
    replace known := (knownDependencies_eq_ok_iff digest orders distinct).mp known
    have closed := storedCatalog_closed digest orders distinct known
    refine ⟨⟨⟨nonempty, ready, profilesDistinct, admissible, distinct, known⟩, ?_⟩, phases, ordered,
      (Except.ok.inj returned).symm⟩
    rw [← (isOrdering_orderingGraph distinct closed).needs_eq]
    exact (globalPhases_isOk_iff closed orders.names).mp ⟨phases, ordered⟩
  · rintro ⟨accepted, phases, ordered, rfl⟩
    exact ⟨accepted.nonempty, _, ⟨accepted.ready, accepted.profilesDistinct, rfl⟩, _,
      ⟨accepted.admissible, accepted.distinct, rfl⟩, (),
      (knownDependencies_eq_ok_iff digest orders accepted.distinct).mpr accepted.known, phases,
      ordered, rfl⟩

theorem exists_newFromContracts_iff (digest : Digest) (orders : Orders)
    (contracts : List ServiceContract) (profiles : List ReleaseProfile) (options : Options) :
    (∃ planner, newFromContracts digest orders contracts profiles options = .ok planner) ↔
      Accepted digest contracts profiles := by
  simp only [newFromContracts_eq_ok_iff]
  constructor
  · rintro ⟨_, accepted, -⟩
    exact accepted
  · intro accepted
    have closed := storedCatalog_closed digest orders accepted.distinct accepted.known
    have acyclic := accepted.acyclic
    rw [← (isOrdering_orderingGraph accepted.distinct closed).needs_eq] at acyclic
    obtain ⟨phases, ordered⟩ := (globalPhases_isOk_iff closed orders.names).mpr acyclic
    exact ⟨_, accepted, phases, ordered, rfl⟩

theorem phased_contractContent {phases : GoMap String ℤ} {names : List String}
    (keys : ∀ name, name ∈ names ↔ name ∈ phases.keys) (digest : Digest)
    (contract : ServiceContract) :
    Catalog.phased phases names contract.name (contractContent digest 0 contract) =
      contractContent digest (phases.find contract.name 0) contract := by
  unfold Catalog.phased
  split
  · rfl
  · next absent =>
    have missing : phases.get? contract.name = none :=
      AList.lookup_eq_none.mpr fun member => absent ((keys _).mpr member)
    rw [GoMap.find, missing]
    rfl

theorem composed_of_newFromContracts
    (built : newFromContracts digest orders contracts profiles options = .ok planner) :
    ∃ phase, Composed digest contracts profiles options phase planner := by
  obtain ⟨accepted, phases, ordered, rfl⟩ := newFromContracts_eq_ok_iff.mp built
  have closed := storedCatalog_closed digest orders accepted.distinct accepted.known
  have ordering := isOrdering_orderingGraph accepted.distinct closed
  obtain ⟨byName, hashes⟩ := tabulates_storedProfiles digest accepted.profilesDistinct
  obtain ⟨definitions, contractHashes⟩ := tabulates_storedCatalog digest orders accepted.distinct
  refine ⟨fun name => phases.find name 0, ?_, byName.map fun _ => ReleaseProfile.planned, ?_,
    hashes, rfl, _, ordering, ?_, globalPhases_levelled closed orders.names ordered⟩
  · have defined : ∀ name ∈ orders.names.arrange 4 phases.keys,
        ((storedCatalog digest orders contracts).definitions.get? name).isSome := by
      intro name member
      rw [orders.names.mem_arrange] at member
      exact GoMap.isSome_get?_iff.mpr (mem_keys_of_mem_phases ordered member)
    have contents := fun name => Catalog.content_foldl_setPhase phases
      (Catalog.linked_storedCatalog digest orders contracts) defined name
    simp only [newPlanner, contents]
    have stored := (definitions.map fun _ => ServiceDefinition.content).map
      (Catalog.phased phases (orders.names.arrange 4 phases.keys))
    simpa only [content_contractDefinition,
      phased_contractContent (orders.names.mem_arrange 4 phases.keys)] using stored
  · simp only [newPlanner, Catalog.contractHashes_foldl_setPhase]
    exact contractHashes
  · rw [ordering.needs_eq]
    exact accepted.acyclic

end NewFromContracts

end Themisy.Planning
