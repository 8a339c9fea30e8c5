import Mathlib.Algebra.Group.Int.Defs
import Themisy.Encoding.Json

/-!
# Domain types

This file embeds `internal/domain`: services and their dependencies, release
requests, plans, and release runs with the records of their steps.

A Go string type with named constants is an inductive type with one constructor
for each constant, and one for every other text.
Pointers which may be nil are options. Times are nanoseconds since the zero time.
The projection for display (`ContractValidation`, `RunnerInfo`) is left out.
-/

namespace Themisy.Domain

/-- Nanoseconds since the zero value of `time.Time`. -/
abbrev Time := ℤ

inductive Environment where
  | staging
  | production
  | other (text : String) (unlisted : text ∉ ["staging", "production"])
  deriving DecidableEq

def Environment.text : Environment → String
  | staging => "staging"
  | production => "production"
  | other text _ => text

def Environment.ofText (text : String) : Environment :=
  if unlisted : text ∉ ["staging", "production"] then other text unlisted
  else if text = "staging" then staging
  else production

inductive DependencyType where
  | rolloutOrder
  | schemaCompatibility
  | runtime
  | sharedFailureDomain
  | dataMigration
  | traffic
  | other (text : String) (unlisted : text ∉ ["rollout-order", "schema-compatibility", "runtime",
      "shared-failure-domain", "data-migration", "traffic"])
  deriving DecidableEq

namespace DependencyType

def text : DependencyType → String
  | rolloutOrder => "rollout-order"
  | schemaCompatibility => "schema-compatibility"
  | runtime => "runtime"
  | sharedFailureDomain => "shared-failure-domain"
  | dataMigration => "data-migration"
  | traffic => "traffic"
  | other text _ => text

def valid : DependencyType → Bool
  | other _ _ => false
  | _ => true

def enforcesRolloutOrder : DependencyType → Bool
  | rolloutOrder => true
  | dataMigration => true
  | traffic => true
  | _ => false

end DependencyType

structure Dependency where
  service : String := ""
  resource : String := ""
  type : DependencyType
  condition : String := ""
  constraint : String := ""
  deriving DecidableEq

namespace Dependency

/-- A dependency on a service which has to be released before. -/
def ordersOn (dependency : Dependency) : Bool :=
  dependency.service ≠ "" ∧ dependency.type.enforcesRolloutOrder

def toJson (dependency : Dependency) : Json :=
  .object (Json.optionalText "service" dependency.service ++
    Json.optionalText "resource" dependency.resource ++
    Json.field "type" (.text dependency.type.text) ++
    Json.optionalText "condition" dependency.condition ++
    Json.optionalText "constraint" dependency.constraint)

/-- The key by which dependencies are sorted, most significant part first. -/
def sortKey (dependency : Dependency) : List String :=
  [dependency.type.text, dependency.service, dependency.resource, dependency.condition,
    dependency.constraint]

end Dependency

inductive Capability where
  | deploy
  | getStatus
  | cancel
  | rollback
  | verifyRuntime
  | verifyMetric
  | drain
  | shiftTraffic
  | other (text : String) (unlisted : text ∉ ["deploy", "get_status", "cancel", "rollback",
      "verify_runtime", "verify_metric", "drain", "shift_traffic"])
  deriving DecidableEq

namespace Capability

def text : Capability → String
  | deploy => "deploy"
  | getStatus => "get_status"
  | cancel => "cancel"
  | rollback => "rollback"
  | verifyRuntime => "verify_runtime"
  | verifyMetric => "verify_metric"
  | drain => "drain"
  | shiftTraffic => "shift_traffic"
  | other text _ => text

def valid : Capability → Bool
  | other _ _ => false
  | _ => true

def toJson (capability : Capability) : Json :=
  .text capability.text

end Capability

/-- A service of a legacy catalog. -/
structure Service where
  id : String
  name : String
  ownerTeam : String
  riskTier : String := ""
  repository : String
  releasePhase : ℤ := 0
  dependencies : List String
  runnerGroups : GoMap Environment String := ∅
  failureDomains : List String := []
  metadataVersion : String := ""
  updatedAt : Time := 0

structure AgentIdentity where
  id : String
  scopes : List String := []
  deriving DecidableEq, Inhabited

/-- The change of one service. -/
structure Change where
  service : String
  desiredVersion : String
  ciSuccess : Bool := false
  dependenciesHealthy : Bool := false
  destructiveMigration : Bool := false
  risk : String := ""
  deriving DecidableEq, Inhabited

def Change.toJson (change : Change) : Json :=
  .object (Json.field "service" (.text change.service) ++
    Json.field "desired_version" (.text change.desiredVersion) ++
    Json.field "ci_success" (.bool change.ciSuccess) ++
    Json.field "dependencies_healthy" (.bool change.dependenciesHealthy) ++
    Json.optionalBool "destructive_migration" change.destructiveMigration ++
    Json.optionalText "risk" change.risk)

structure ReleaseRequest where
  requestID : String
  releaseVersion : String
  tenantID : String := ""
  environment : Environment
  region : String := ""
  cluster : String := ""
  requestedBy : String
  agent : AgentIdentity
  changes : List Change
  deriving DecidableEq

/-- What a planner is asked to release. -/
structure ReleaseIntent where
  apiVersion : String
  kind : String
  requestID : String
  releaseVersion : String
  tenantID : String := ""
  environment : Environment
  region : String := ""
  cluster : String := ""
  requestedBy : String
  agent : AgentIdentity
  changes : List Change
  deriving DecidableEq

def releaseIntentAPIVersion : String := "execution.themisy.io/v1alpha1"

def releaseIntentKind : String := "ReleaseIntent"

inductive RollbackMode where
  | automatic
  | approvalRequired
  | manualOnly
  | unsupported
  | other (text : String)
      (unlisted : text ∉ ["automatic", "approval-required", "manual-only", "unsupported"])
  deriving DecidableEq

namespace RollbackMode

def text : RollbackMode → String
  | automatic => "automatic"
  | approvalRequired => "approval-required"
  | manualOnly => "manual-only"
  | unsupported => "unsupported"
  | other text _ => text

def ofText (text : String) : RollbackMode :=
  if unlisted : text ∉ ["automatic", "approval-required", "manual-only", "unsupported"] then
    other text unlisted
  else if text = "automatic" then automatic
  else if text = "approval-required" then approvalRequired
  else if text = "manual-only" then manualOnly
  else unsupported

end RollbackMode

structure SchedulingContext where
  tenantID : String
  environment : Environment
  region : String
  cluster : String
  team : String
  riskTier : String
  runnerGroup : String
  failureDomains : List String
  deriving DecidableEq

def SchedulingContext.toJson (context : SchedulingContext) : Json :=
  .object (Json.field "tenant_id" (.text context.tenantID) ++
    Json.field "environment" (.text context.environment.text) ++
    Json.field "region" (.text context.region) ++
    Json.field "cluster" (.text context.cluster) ++
    Json.field "team" (.text context.team) ++
    Json.field "risk_tier" (.text context.riskTier) ++
    Json.field "runner_group" (.text context.runnerGroup) ++
    Json.optionalSlice "failure_domains" Json.text context.failureDomains)

/-- A planned step, with all which its execution needs. -/
structure PlanStep where
  service : String
  desiredVersion : String
  phase : ℤ
  profile : String
  dependencies : List Dependency
  requiredCapabilities : List Capability
  contractHash : String
  profileHash : String
  changeHash : String
  verificationRequired : Bool
  observationWindow : String
  rollbackMode : RollbackMode
  scheduling : SchedulingContext
  deriving DecidableEq

/-- The services which a planned step has to follow, selected or not, with repetitions. -/
def PlanStep.orderingDependencies (step : PlanStep) : List String :=
  (step.dependencies.filter Dependency.ordersOn).map Dependency.service

def PlanStep.toJson (step : PlanStep) : Json :=
  .object (Json.field "service" (.text step.service) ++
    Json.field "desired_version" (.text step.desiredVersion) ++
    Json.field "phase" (.number step.phase) ++
    Json.optionalText "profile" step.profile ++
    Json.optionalSlice "dependencies" Dependency.toJson step.dependencies ++
    Json.optionalSlice "required_capabilities" Capability.toJson step.requiredCapabilities ++
    Json.optionalText "contract_hash" step.contractHash ++
    Json.optionalText "profile_hash" step.profileHash ++
    Json.optionalText "change_hash" step.changeHash ++
    Json.field "verification_required" (.bool step.verificationRequired) ++
    Json.optionalText "observation_window" step.observationWindow ++
    Json.field "rollback_mode" (.text step.rollbackMode.text) ++
    Json.field "scheduling" step.scheduling.toJson)

structure PlanPhase where
  number : ℤ
  steps : List PlanStep
  deriving DecidableEq

def PlanPhase.toJson (phase : PlanPhase) : Json :=
  .object (Json.field "number" (.number phase.number) ++
    Json.field "steps" (Json.ofSlice PlanStep.toJson phase.steps))

/-- A plan: phases of steps, and the hashes it depends on. -/
structure ReleasePlan where
  apiVersion : String
  id : String
  releaseVersion : String
  environment : Environment
  phases : List PlanPhase
  hash : String
  planHash : String
  contractHashes : GoMap String String
  profileHashes : GoMap String String
  contextSnapshotRef : String
  policyHash : String
  evidenceHash : String
  createdAt : Time
  expiresAt : Time
  deriving DecidableEq

def ReleasePlan.steps (plan : ReleasePlan) : List PlanStep :=
  plan.phases.flatMap PlanPhase.steps

end Themisy.Domain
