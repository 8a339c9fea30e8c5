import Themisy.Collections.Grouping
import Themisy.Contract.ServiceContract
import Themisy.Graph.Kahn

/-!
# Planners and how they are built

This file embeds the constructors of `internal/planner`. A planner holds the
definitions of all services, built from a legacy catalog (`new`) or from service
contracts and release profiles (`newFromContracts`).

`range` over a map is an `IterationOrder` on the keys, one statement number for
each loop. Encodings of the values hashed here never fail, so `hashValue`
returns no error.
-/

namespace Themisy.Planning

open Domain Contract GoText

structure Options where
  planTTL : ℤ := 0
  contextSnapshotRef : String := ""
  policyHash : String := ""
  evidenceHash : String := ""

structure EnvironmentDefinition where
  profile : String
  runnerGroup : String
  deriving DecidableEq

structure ServiceDefinition where
  service : Service
  dependencies : List Dependency
  environments : GoMap Environment EnvironmentDefinition
  contractHash : String

namespace ServiceDefinition

/-- What reading a missing definition yields. -/
def zero : ServiceDefinition where
  service := { id := "", name := "", ownerTeam := "", repository := "", dependencies := [] }
  dependencies := []
  environments := ∅
  contractHash := ""

/-- The services which have to be released before, with repetitions. -/
def orderingDependencies (definition : ServiceDefinition) : List String :=
  (definition.dependencies.filter Dependency.ordersOn).map Dependency.service

end ServiceDefinition

/-- What the planner reads of the definition of a service. -/
structure DefinitionContent where
  releasePhase : ℤ
  ownerTeam : String
  riskTier : String
  failureDomains : List String
  dependencies : List Dependency
  environments : Environment → Option EnvironmentDefinition
  contractHash : String

/-- The content of a definition, with its map of environments as a function. -/
def ServiceDefinition.content (definition : ServiceDefinition) : DefinitionContent where
  releasePhase := definition.service.releasePhase
  ownerTeam := definition.service.ownerTeam
  riskTier := definition.service.riskTier
  failureDomains := definition.service.failureDomains
  dependencies := definition.dependencies
  environments := definition.environments.get?
  contractHash := definition.contractHash

/-- The catalog, with the hashes of its documents. -/
structure Planner where
  services : GoMap String Service
  definitions : GoMap String ServiceDefinition
  profiles : GoMap String ReleaseProfile
  contractHashes : GoMap String String
  profileHashes : GoMap String String
  contextSnapshotRef : String
  policyHash : String
  evidenceHash : String
  planTTL : ℤ

def newPlanner (digest : Digest) (services : GoMap String Service)
    (definitions : GoMap String ServiceDefinition) (profiles : GoMap String ReleaseProfile)
    (contractHashes profileHashes : GoMap String String) (options : Options) : Planner where
  services
  definitions
  profiles
  contractHashes
  profileHashes
  contextSnapshotRef :=
    if options.contextSnapshotRef = "" then
      "content:" ++ digest.hashValue (.object (
        Json.field "contracts" (Json.ofMap Json.text contractHashes) ++
        Json.field "profiles" (Json.ofMap Json.text profileHashes) ++
        Json.field "policy_hash" (.text options.policyHash) ++
        Json.field "evidence_hash" (.text options.evidenceHash)))
    else options.contextSnapshotRef
  policyHash := options.policyHash
  evidenceHash := options.evidenceHash
  planTTL := if options.planTTL ≤ 0 then 15 * 60 * 1000000000 else options.planTTL

/-- What the contracts have registered so far. -/
structure Catalog where
  services : GoMap String Service := ∅
  definitions : GoMap String ServiceDefinition := ∅
  contractHashes : GoMap String String := ∅

def Catalog.register (catalog : Catalog) (name : String) (definition : ServiceDefinition) :
    Catalog where
  services := catalog.services.set name definition.service
  definitions := catalog.definitions.set name definition
  contractHashes := catalog.contractHashes.set name definition.contractHash

def legacyDefinition (digest : Digest) (service : Service) : ServiceDefinition :=
  let dependencies := sortedDependencies (service.dependencies.map fun dependency =>
    { service := dependency, type := .rolloutOrder })
  { service
    dependencies
    environments :=
      ((∅ : GoMap Environment EnvironmentDefinition).set .staging
        ⟨"legacy", "legacy-staging"⟩).set .production ⟨"legacy", "legacy-production"⟩
    contractHash := digest.hashValue (.object (
      Json.field "name" (.text service.name) ++
      Json.field "owner" (.text service.ownerTeam) ++
      Json.field "repository" (.text service.repository) ++
      Json.field "dependencies" (Json.ofSlice Dependency.toJson dependencies))) }

def registerLegacy (digest : Digest) (catalog : Catalog) (service : Service) :
    Except GoError Catalog := do
  require (service.name ≠ "") (.plain "service name is required")
  require (catalog.services.get? service.name = none)
    (.plain ("duplicate service " ++ quote service.name))
  return catalog.register service.name (legacyDefinition digest service)

def new (digest : Digest) (order : IterationOrder String) (services : List Service) :
    Except GoError Planner := do
  let catalog ← services.foldlM (registerLegacy digest) {}
  (order.arrange 0 catalog.definitions.keys).forM fun name =>
    let definition := catalog.definitions.find name .zero
    definition.dependencies.forM fun dependency =>
      require ((catalog.services.get? dependency.service).isSome)
        (.plain ("service " ++ quote definition.service.name ++ " references unknown dependency " ++
          quote dependency.service))
  let legacyProfileHash := digest.hashValue (.object (Json.field "name" (.text "legacy")))
  return newPlanner digest catalog.services catalog.definitions ∅ catalog.contractHashes
    ((∅ : GoMap String String).set "legacy" legacyProfileHash) {}

structure Profiles where
  byName : GoMap String ReleaseProfile := ∅
  hashes : GoMap String String := ∅

def registerProfile (digest : Digest) (profiles : Profiles) (profile : ReleaseProfile) :
    Except GoError Profiles := do
  profile.validate
  require (profiles.byName.get? profile.name = none)
    (newReasonError .invalidProfile "metadata.name" ("duplicate profile " ++ quote profile.name))
  let hash := profile.hash digest
  require (profile.contentHash = "" ∨ profile.contentHash = hash)
    (newReasonError .invalidProfile "content_hash"
      ("profile " ++ quote profile.name ++ " content changed after hashing"))
  return ⟨profiles.byName.set profile.name { profile with contentHash := hash },
    profiles.hashes.set profile.name hash⟩

def missingCapabilities (actual required : List Capability) : List Capability :=
  sortedCapabilities (required.filter fun capability => capability ∉ actual)

def registerEnvironment (profiles : GoMap String ReleaseProfile)
    (environments : GoMap Environment EnvironmentDefinition) (entry : EnvironmentEntry) :
    Except GoError (GoMap Environment EnvironmentDefinition) :=
  match profiles.get? entry.2.releaseProfile with
  | none =>
    .error (newReasonError .unknownProfile ("environments." ++ entry.1 ++ ".releaseProfile")
      ("profile " ++ quote entry.2.releaseProfile ++ " does not exist"))
  | some profile => do
      let missing := missingCapabilities entry.2.capabilities profile.requiredCapabilities
      require (missing = [])
        (newReasonError .missingCapability ("environments." ++ entry.1 ++ ".capabilities")
          ("profile " ++ quote entry.2.releaseProfile ++ " requires " ++
            showSlice (missing.map Capability.text)))
      return environments.set (.ofText entry.1) ⟨entry.2.releaseProfile, entry.2.runnerGroup⟩

/-- The order in which the maps inside contracts are visited, and the maps of the planner. -/
structure Orders where
  environments : IterationOrder EnvironmentEntry
  names : IterationOrder String

def contractDefinition (digest : Digest) (contract : ServiceContract)
    (environments : GoMap Environment EnvironmentDefinition) : ServiceDefinition :=
  let dependencies := sortedDependencies contract.dependencies
  { service :=
      { id := contract.name
        name := contract.name
        ownerTeam := contract.owner
        riskTier := contract.riskTier
        repository := contract.repository
        dependencies := (dependencies.filter Dependency.ordersOn).map Dependency.service
        runnerGroups := environments.entries.foldl (fun groups entry =>
          GoMap.set groups entry.1 entry.2.runnerGroup) ∅
        failureDomains := (dependencies.filter fun dependency =>
          dependency.type = .sharedFailureDomain ∧ dependency.resource ≠ "").map
            Dependency.resource
        metadataVersion := contract.apiVersion }
    dependencies
    environments
    contractHash := contract.hash digest }

def registerContract (digest : Digest) (orders : Orders) (profiles : GoMap String ReleaseProfile)
    (catalog : Catalog) (contract : ServiceContract) : Except GoError Catalog := do
  contract.validate orders.environments
  require (catalog.definitions.get? contract.name = none)
    (newReasonError .invalidContract "metadata.name" ("duplicate service " ++ quote contract.name))
  let hash := contract.hash digest
  require (contract.contentHash = "" ∨ contract.contentHash = hash)
    (newReasonError .invalidContract "content_hash"
      ("service " ++ quote contract.name ++ " content changed after hashing"))
  let environments ← (orders.environments.arrange 1 contract.environments.entries).foldlM
    (registerEnvironment profiles) ∅
  return catalog.register contract.name (contractDefinition digest contract environments)

/--
The worklist of `validateGlobalOrderingGraph`: last in, first out. Its phases start at zero
and are smaller than the number of definitions, so adding one to them never overflows.
-/
def stack : Kahn.Worklist String where
  take ready := ready.getLast?.map fun last => (last, ready.dropLast)
  add ready child := ready ++ [child]
  visit children := children
  raise phase := phase + 1
  take_nil := rfl
  take_cons first rest := by
    refine ⟨(first :: rest).getLast (by simp), (first :: rest).dropLast, ?_, ?_⟩
    · rw [List.getLast?_eq_some_getLast (by simp)]
      rfl
    · refine List.Perm.trans (List.Perm.of_eq (List.dropLast_append_getLast (by simp)).symm) ?_
      exact List.perm_append_singleton _ _
  add_perm ready child := List.perm_append_singleton child ready
  visit_perm children := List.Perm.refl children

def orderingCycle (field detail : String) : GoError :=
  .reason .dependencyCycle field detail (some "dependency cycle detected")

def validateGlobalOrderingGraph (order : IterationOrder String)
    (definitions : GoMap String ServiceDefinition) : Except GoError (GoMap String ℤ) :=
  let edges := Kahn.Edges.read
    (fun name => (definitions.find name .zero).orderingDependencies)
    (order.arrange 2 definitions.keys)
  let ready := (order.arrange 3 definitions.keys).filter fun name => edges.indegree.find name 0 = 0
  let final := Kahn.State.drain stack edges.children ⟨edges.indegree, ∅, ready, 0⟩
  if final.processed ≠ definitions.keys.length then
    .error (orderingCycle "dependencies" "service contracts contain an ordering cycle")
  else .ok final.phase

/-- Store the global phase of a service in its definition. -/
def Catalog.setPhase (phases : GoMap String ℤ) (catalog : Catalog) (name : String) : Catalog :=
  let service :=
    { catalog.services.find name ServiceDefinition.zero.service with
      releasePhase := phases.find name 0 }
  { catalog with
    services := catalog.services.set name service
    definitions := catalog.definitions.set name
      { catalog.definitions.find name .zero with service } }

def newFromContracts (digest : Digest) (orders : Orders) (contracts : List ServiceContract)
    (profiles : List ReleaseProfile) (options : Options) : Except GoError Planner := do
  require (contracts ≠ [])
    (newReasonError .invalidContract "contracts" "at least one service contract is required")
  let registered ← profiles.foldlM (registerProfile digest) {}
  let catalog ← contracts.foldlM (registerContract digest orders registered.byName) {}
  (orders.names.arrange 0 catalog.definitions.keys).forM fun name =>
    (catalog.definitions.find name .zero).dependencies.forM fun dependency =>
      require (dependency.service = "" ∨ (catalog.definitions.get? dependency.service).isSome)
        (newReasonError .unknownDependency ("services." ++ name ++ ".dependencies")
          ("service " ++ quote dependency.service ++ " does not exist"))
  let phases ← validateGlobalOrderingGraph orders.names catalog.definitions
  let final := (orders.names.arrange 4 phases.keys).foldl (Catalog.setPhase phases) catalog
  return newPlanner digest final.services final.definitions registered.byName
    final.contractHashes registered.hashes options

end Themisy.Planning
