import Themisy.Contract.ReleaseProfile

/-!
# Service contracts

This file embeds `internal/contract`: the contract record, its validation, and
its content hash. Decoding from YAML and the source path are left out.

The environments of a contract are a Go map, so which of several invalid ones
is reported depends on the order in which the map is visited.
-/

namespace Themisy.Contract

open Domain GoText

structure EnvironmentContract where
  releaseProfile : String
  runnerGroup : String
  capabilities : List Capability
  deriving DecidableEq

structure VerificationCheck where
  type : String
  threshold : String := ""
  check : String := ""
  deriving DecidableEq

/-- The contract of a service, as its document has it. -/
structure ServiceContract where
  apiVersion : String
  kind : String
  name : String
  owner : String
  repository : String
  riskTier : String
  environments : GoMap String EnvironmentContract
  dependencies : List Dependency
  verificationProfile : String
  observationWindow : String
  checks : List VerificationCheck
  rollbackCapability : String
  rollbackStrategy : String
  rollbackDeadline : String
  contentHash : String := ""

/-- The entries of a contract's environments, as `range` yields them. -/
abbrev EnvironmentEntry := (_ : String) × EnvironmentContract

/-- Dependencies in the order of type, service, resource, condition and constraint. -/
def sortedDependencies (values : List Dependency) : List Dependency :=
  values.insertionSort fun left right => left.sortKey ≤ right.sortKey

def EnvironmentContract.toJson (environment : EnvironmentContract) : Json :=
  .object (Json.field "releaseProfile" (.text environment.releaseProfile) ++
    Json.field "runnerGroup" (.text environment.runnerGroup) ++
    Json.field "capabilities"
      (Json.ofSlice Capability.toJson (sortedCapabilities environment.capabilities)))

def VerificationCheck.toJson (check : VerificationCheck) : Json :=
  .object (Json.field "type" (.text check.type) ++
    Json.optionalText "threshold" check.threshold ++
    Json.optionalText "check" check.check)

def sortedChecks (checks : List VerificationCheck) : List VerificationCheck :=
  checks.insertionSort fun left right =>
    [left.type, left.check, left.threshold] ≤ [right.type, right.check, right.threshold]

namespace ServiceContract

def expectedAPIVersion : String := "execution.themisy.io/v1alpha1"

def expectedKind : String := "ServiceContract"

def validateEnvironment (entry : EnvironmentEntry) : Except GoError Unit := do
  let field := "environments." ++ entry.1
  require (entry.1 = Environment.staging.text ∨ entry.1 = Environment.production.text)
    (newReasonError .invalidContract field "unsupported environment")
  require (entry.2.releaseProfile ≠ "")
    (newReasonError .invalidContract (field ++ ".releaseProfile") "release profile is required")
  require (entry.2.runnerGroup ≠ "")
    (newReasonError .invalidContract (field ++ ".runnerGroup") "runner group is required")
  require (entry.2.capabilities ≠ [])
    (newReasonError .missingCapability (field ++ ".capabilities")
      "at least one capability is required")
  validateCapabilities .invalidContract (field ++ ".capabilities") entry.2.capabilities []

def validateDependency (dependency : Dependency) (index : ℕ) : Except GoError Unit := do
  let field := "dependencies[" ++ toString index ++ "]"
  require dependency.type.valid
    (newReasonError .invalidContract (field ++ ".type")
      ("unsupported dependency type " ++ quote dependency.type.text))
  require (¬(dependency.service = "" ↔ dependency.resource = ""))
    (newReasonError .invalidContract field "exactly one of service or resource is required")

def validateCheck (check : VerificationCheck) (index : ℕ) : Except GoError Unit :=
  require (¬(check.type = "" ∨ check.threshold = "" ∧ check.check = ""))
    (newReasonError .invalidContract ("verification.checks[" ++ toString index ++ "]")
      "type and threshold or check are required")

def validate (order : IterationOrder EnvironmentEntry) (contract : ServiceContract) :
    Except GoError Unit := do
  require (contract.apiVersion = expectedAPIVersion)
    (newReasonError .unsupportedSchemaVersion "apiVersion"
      ("got " ++ quote contract.apiVersion ++ ", want " ++ quote expectedAPIVersion))
  require (contract.kind = expectedKind)
    (newReasonError .invalidContract "kind"
      ("got " ++ quote contract.kind ++ ", want " ++ quote expectedKind))
  require (isBlank contract.name = false)
    (newReasonError .invalidContract "metadata.name" "name is required")
  require (isBlank contract.owner = false)
    (newReasonError .missingOwner "metadata.owner" "owner is required")
  require (isBlank contract.repository = false)
    (newReasonError .invalidContract "metadata.repository" "repository is required")
  require (contract.riskTier ∈ ["low", "medium", "high", "critical"])
    (newReasonError .invalidContract "metadata.riskTier" "must be low, medium, high, or critical")
  require (contract.environments.entries ≠ [])
    (newReasonError .invalidContract "environments" "at least one environment is required")
  (order.arrange 0 contract.environments.entries).forM validateEnvironment
  contract.dependencies.zipIdx.forM fun entry => validateDependency entry.1 entry.2
  require (¬(contract.verificationProfile = "" ∨ contract.observationWindow = "" ∨
      contract.checks = []))
    (newReasonError .invalidContract "verification"
      "profile, observationWindow, and checks are required")
  validateDuration .invalidContract "verification.observationWindow" contract.observationWindow
  contract.checks.zipIdx.forM fun entry => validateCheck entry.1 entry.2
  require (contract.rollbackCapability ∈
      ["automatic", "approval-required", "manual-only", "unsupported"])
    (newReasonError .invalidContract "rollback.capability" "unsupported rollback capability")
  require (contract.rollbackStrategy ≠ "")
    (newReasonError .invalidContract "rollback.strategy" "strategy is required")
  validateDuration .invalidContract "rollback.deadline" contract.rollbackDeadline

/-- The canonical encoding: no content hash, and every list in its canonical order. -/
def canonical (contract : ServiceContract) : Json :=
  .object (Json.field "apiVersion" (.text contract.apiVersion) ++
    Json.field "kind" (.text contract.kind) ++
    Json.field "metadata" (.object (Json.field "name" (.text contract.name) ++
      Json.field "owner" (.text contract.owner) ++
      Json.field "repository" (.text contract.repository) ++
      Json.field "riskTier" (.text contract.riskTier))) ++
    Json.field "environments" (Json.ofMap EnvironmentContract.toJson contract.environments) ++
    Json.optionalSlice "dependencies" Dependency.toJson
      (sortedDependencies contract.dependencies) ++
    Json.field "verification" (.object (
      Json.field "profile" (.text contract.verificationProfile) ++
      Json.field "observationWindow" (.text contract.observationWindow) ++
      Json.field "checks"
        (Json.ofSlice VerificationCheck.toJson (sortedChecks contract.checks)))) ++
    Json.field "rollback" (.object (
      Json.field "capability" (.text contract.rollbackCapability) ++
      Json.field "strategy" (.text contract.rollbackStrategy) ++
      Json.field "deadline" (.text contract.rollbackDeadline))))

def hash (digest : Digest) (contract : ServiceContract) : String :=
  digest.hashValue contract.canonical

theorem name_ne_empty_of_validate {order : IterationOrder EnvironmentEntry}
    {contract : ServiceContract} (accepted : contract.validate order = .ok ()) :
    contract.name ≠ "" := by
  simp only [validate, bind_eq_ok, require_eq_ok, exists_const] at accepted
  obtain ⟨-, -, named, -⟩ := accepted
  intro unnamed
  rw [unnamed] at named
  cases named

end ServiceContract

/-- The contract of a service which is released into staging. -/
def stagingContract (name : String) (dependencies : List Dependency) : ServiceContract where
  apiVersion := ServiceContract.expectedAPIVersion
  kind := ServiceContract.expectedKind
  name
  owner := "team"
  repository := "repo"
  riskTier := "low"
  environments := GoMap.set ∅ "staging" ⟨"standard", "runner", [.deploy]⟩
  dependencies
  verificationProfile := "health"
  observationWindow := "1m"
  checks := [{ type := "http", check := "ready" }]
  rollbackCapability := "automatic"
  rollbackStrategy := "previous"
  rollbackDeadline := "30m"

end Themisy.Contract
