import Themisy.Collections.Int64
import Themisy.Planning.Catalog

/-!
# Planning a release

This file embeds `Planner.PlanIntent`, `Planner.ValidatePlan` and the conversions
between intents and legacy requests. `planIntent` checks the fields of the
intent, orders the changed services by their selected ordering dependencies,
and groups the steps of the changed services by phase.

The clock is an argument, as is the order in which the map of changes is visited.
-/

namespace Themisy.Planning

open Domain Contract GoText

def planAPIVersion : String := "execution.themisy.io/v1alpha1"

def intentFromLegacy (request : ReleaseRequest) : ReleaseIntent where
  apiVersion := releaseIntentAPIVersion
  kind := releaseIntentKind
  requestID := request.requestID
  releaseVersion := request.releaseVersion
  tenantID := request.tenantID
  environment := request.environment
  region := request.region
  cluster := request.cluster
  requestedBy := request.requestedBy
  agent := request.agent
  changes := request.changes

def legacyRequestFromIntent (intent : ReleaseIntent) : ReleaseRequest where
  requestID := intent.requestID
  releaseVersion := intent.releaseVersion
  tenantID := intent.tenantID
  environment := intent.environment
  region := intent.region
  cluster := intent.cluster
  requestedBy := intent.requestedBy
  agent := intent.agent
  changes := intent.changes

def normalizedValue (value fallback : String) : String :=
  if value = "" then fallback else value

namespace Planner

variable (planner : Planner)

def definition (name : String) : ServiceDefinition :=
  planner.definitions.find name .zero

def registerChange (environment : Environment) (changes : GoMap String Change) (change : Change) :
    Except GoError (GoMap String Change) :=
  match planner.definitions.get? change.service with
  | none => .error (.plain ("unknown service " ++ quote change.service))
  | some definition => do
      require ((definition.environments.get? environment).isSome)
        (.plain ("service " ++ quote change.service ++ " does not declare environment " ++
          quote environment.text))
      require (change.desiredVersion ≠ "")
        (.plain ("desired version is required for " ++ quote change.service))
      require (changes.get? change.service = none)
        (.plain ("duplicate change for " ++ quote change.service))
      return changes.set change.service change

/-- The checks of `PlanIntent` before it orders the changes. -/
def checkIntent (intent : ReleaseIntent) : Except GoError (GoMap String Change) := do
  require (intent.apiVersion = releaseIntentAPIVersion)
    (newReasonError .unsupportedSchemaVersion "api_version"
      ("got " ++ quote intent.apiVersion ++ ", want " ++ quote releaseIntentAPIVersion))
  require (intent.kind = releaseIntentKind)
    (.plain ("unsupported intent kind " ++ quote intent.kind))
  require (intent.changes ≠ []) (.plain "at least one change is required")
  require (intent.environment = .staging ∨ intent.environment = .production)
    (.plain ("unsupported environment " ++ quote intent.environment.text))
  intent.changes.foldlM (planner.registerChange intent.environment) ∅

/-- The worklist of `PlanIntent`: kept sorted, taken from the front. Phases are of 64 bits. -/
def sortedQueue : Kahn.Worklist String where
  take ready := ready.head?.map fun first => (first, ready.tail)
  add ready child := sortStrings (ready ++ [child])
  visit children := sortStrings children
  raise phase := Int.bmod (phase + 1) (2 ^ 64)
  take_nil := rfl
  take_cons first rest := ⟨first, rest, rfl, List.Perm.refl _⟩
  add_perm ready child := (sortStrings_perm _).trans (List.perm_append_singleton child ready)
  visit_perm children := sortStrings_perm children

/-- The ordering dependencies of a changed service on changed services. -/
def selectedDependencies (changes : GoMap String Change) (name : String) : List String :=
  (planner.definition name).orderingDependencies.filter fun dependency =>
    (changes.get? dependency).isSome

def orderChanges (order : IterationOrder String) (changes : GoMap String Change) :
    Kahn.State String :=
  let names := order.arrange 0 changes.keys
  let edges := Kahn.Edges.read (planner.selectedDependencies changes) names
  let phase := names.foldl (fun phase name =>
    GoMap.set phase name (planner.definition name).service.releasePhase) ∅
  let ready := sortStrings ((order.arrange 1 changes.keys).filter fun name =>
    edges.indegree.find name 0 = 0)
  Kahn.State.drain sortedQueue edges.children ⟨edges.indegree, phase, ready, 0⟩

def planStep (digest : Digest) (intent : ReleaseIntent) (phase : ℤ) (name : String)
    (change : Change) : PlanStep :=
  let definition := planner.definition name
  let environment := definition.environments.find intent.environment ⟨"", ""⟩
  let step : PlanStep :=
    { service := name
      desiredVersion := change.desiredVersion
      phase
      profile := environment.profile
      dependencies := sortedDependencies definition.dependencies
      requiredCapabilities := []
      contractHash := definition.contractHash
      profileHash := planner.profileHashes.find environment.profile ""
      changeHash := digest.hashValue change.toJson
      verificationRequired := true
      observationWindow := "1m"
      rollbackMode := .automatic
      scheduling :=
        { tenantID := normalizedValue intent.tenantID "default"
          environment := intent.environment
          region := normalizedValue intent.region "global"
          cluster := normalizedValue intent.cluster environment.runnerGroup
          team := definition.service.ownerTeam
          riskTier := normalizedValue definition.service.riskTier "medium"
          runnerGroup := environment.runnerGroup
          failureDomains := definition.service.failureDomains } }
  match planner.profiles.get? environment.profile with
  | none => step
  | some profile =>
    { step with
      requiredCapabilities := sortedCapabilities profile.requiredCapabilities
      verificationRequired := profile.verificationRequired
      observationWindow := profile.observationWindow
      rollbackMode := .ofText profile.rollbackMode }

/-- The phases of a plan: increasing numbers, and steps sorted by service. -/
def planPhases (steps : List PlanStep) : List PlanPhase :=
  let grouping := Grouping.ofList PlanStep.phase steps
  (grouping.keys.insertionSort (· ≤ ·)).map fun number =>
    ⟨number, (grouping.groups.find number []).insertionSort fun left right =>
      left.service ≤ right.service⟩

end Planner

/-- The hash of a plan covers everything except its identity and its times. -/
def planHash (digest : Digest) (plan : ReleasePlan) : String :=
  digest.hashValue (.object (
    Json.field "api_version" (.text plan.apiVersion) ++
    Json.field "release_version" (.text plan.releaseVersion) ++
    Json.field "environment" (.text plan.environment.text) ++
    Json.field "phases" (Json.ofSlice PlanPhase.toJson plan.phases) ++
    Json.field "contract_hashes" (Json.ofMap Json.text plan.contractHashes) ++
    Json.field "profile_hashes" (Json.ofMap Json.text plan.profileHashes) ++
    Json.field "context_snapshot_ref" (.text plan.contextSnapshotRef) ++
    Json.field "policy_hash" (.text plan.policyHash) ++
    Json.field "evidence_hash" (.text plan.evidenceHash)))

/-- The Go slice `hash[len("sha256:") : len("sha256:")+24]`. -/
def shortHash (hash : String) : String :=
  String.ofList ((hash.toList.drop 7).take 24)

namespace Planner

variable (planner : Planner)

def assemblePlan (digest : Digest) (now : Time) (intent : ReleaseIntent) (steps : List PlanStep) :
    ReleasePlan :=
  let plan : ReleasePlan :=
    { apiVersion := planAPIVersion
      id := ""
      releaseVersion := intent.releaseVersion
      environment := intent.environment
      phases := planPhases steps
      hash := ""
      planHash := ""
      contractHashes := planner.contractHashes
      profileHashes := planner.profileHashes
      contextSnapshotRef := planner.contextSnapshotRef
      policyHash := planner.policyHash
      evidenceHash := planner.evidenceHash
      createdAt := now
      expiresAt := now + planner.planTTL }
  let hash := planHash digest plan
  { plan with hash, planHash := hash, id := "plan_" ++ shortHash hash }

def planIntent (digest : Digest) (order : IterationOrder String) (now : Time)
    (intent : ReleaseIntent) : Except GoError ReleasePlan := do
  let changes ← planner.checkIntent intent
  let ordered := planner.orderChanges order changes
  require (ordered.processed = changes.keys.length)
    (orderingCycle "changes" "selected dependencies contain a cycle")
  return planner.assemblePlan digest now intent ((order.arrange 2 changes.keys).map fun name =>
    planner.planStep digest intent (ordered.phase.find name 0) name (changes.find name default))

def mapsEqual (left right : GoMap String String) : Bool :=
  left.keys.length = right.keys.length ∧ left.entries.all fun entry =>
    right.get? entry.1 = some entry.2

def validatePlan (digest : Digest) (plan : ReleasePlan) (now : Time) : Except GoError Unit := do
  require (plan.planHash ≠ "" ∧ plan.hash ≠ "" ∧ plan.planHash = plan.hash ∧
      plan.planHash = planHash digest plan)
    (newReasonError .planHashMismatch "plan_hash" "plan content does not match its hash")
  require (plan.expiresAt ≠ 0 ∧ now < plan.expiresAt)
    (newReasonError .planExpired "expires_at" "plan is expired")
  require (mapsEqual plan.contractHashes planner.contractHashes)
    (newReasonError .contractChanged "contract_hashes" "service contracts changed after planning")
  require (mapsEqual plan.profileHashes planner.profileHashes)
    (newReasonError .profileChanged "profile_hashes" "release profiles changed after planning")
  require (plan.contextSnapshotRef = planner.contextSnapshotRef)
    (newReasonError .contextChanged "context_snapshot_ref"
      "context snapshot changed after planning")
  require (plan.policyHash = planner.policyHash)
    (newReasonError .policyChanged "policy_hash" "policy changed after planning")
  require (plan.evidenceHash = planner.evidenceHash)
    (newReasonError .evidenceChanged "evidence_hash" "evidence context changed after planning")

end Planner

/-- A service of a legacy catalog, with a release phase and dependencies. -/
def legacyService (name : String) (releasePhase : ℤ) (dependencies : List String) : Service :=
  { id := name, name, ownerTeam := "core", repository := "repo", releasePhase, dependencies }

/-- A release of the listed services into staging. -/
def stagingRelease (names : List String) : ReleaseIntent where
  apiVersion := releaseIntentAPIVersion
  kind := releaseIntentKind
  requestID := "request"
  releaseVersion := "1"
  environment := .staging
  requestedBy := "user"
  agent := { id := "agent" }
  changes := names.map fun name => { service := name, desiredVersion := "1" }

/-- A catalog of two services, the second of which is released after the first. -/
def catalog : List Service :=
  [legacyService "api" 0 [], legacyService "web" 0 ["api"]]

/-- The plan which a planner built from a catalog returns for a release of some services. -/
def Plans (services : List Service) (names : List String) (plan : ReleasePlan) : Prop :=
  ∃ planner, new default .stored services = .ok planner ∧
    planner.planIntent default .stored 1 (stagingRelease names) = .ok plan

/-- Plans a release of some services and shows something of it. -/
def rehearse {Seen : Type} (services : List Service) (names : List String)
    (see : ReleasePlan → Seen) : Except GoError Seen := do
  let planner ← new default .stored services
  let plan ← planner.planIntent default .stored 1 (stagingRelease names)
  return see plan

theorem exists_of_rehearse {Seen : Type} {services : List Service} {names : List String}
    {see : ReleasePlan → Seen} {seen : Seen} (eq : rehearse services names see = .ok seen) :
    ∃ plan, Plans services names plan ∧ see plan = seen := by
  simp only [rehearse, bind_eq_ok] at eq
  obtain ⟨planner, made, plan, planned, shown⟩ := eq
  exact ⟨plan, ⟨planner, made, planned⟩, Except.ok.inj shown⟩

/-- A planner built from contracts, and its plan of a release. -/
structure PlansFrom (digest : Digest) (contracts : List ServiceContract) (intent : ReleaseIntent)
    (planner : Planner) (plan : ReleasePlan) : Prop where
  built : newFromContracts digest ⟨.stored, .stored⟩ contracts [standardProfile] {} = .ok planner
  planned : planner.planIntent digest .stored 1 intent = .ok plan

/-- Plans a release from contracts and shows something of it. -/
def rehearseFrom {Seen : Type} (digest : Digest) (contracts : List ServiceContract)
    (intent : ReleaseIntent) (see : ReleasePlan → Except GoError Seen) : Except GoError Seen := do
  let planner ← newFromContracts digest ⟨.stored, .stored⟩ contracts [standardProfile] {}
  let plan ← planner.planIntent digest .stored 1 intent
  see plan

theorem exists_of_rehearseFrom {Seen : Type} {digest : Digest} {contracts : List ServiceContract}
    {intent : ReleaseIntent} {see : ReleasePlan → Except GoError Seen} {seen : Seen}
    (eq : rehearseFrom digest contracts intent see = .ok seen) :
    ∃ planner plan, PlansFrom digest contracts intent planner plan ∧ see plan = .ok seen := by
  simp only [rehearseFrom, bind_eq_ok] at eq
  obtain ⟨planner, built, plan, planned, shown⟩ := eq
  exact ⟨planner, plan, ⟨built, planned⟩, shown⟩

end Themisy.Planning
