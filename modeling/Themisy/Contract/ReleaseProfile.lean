import Themisy.Domain.Reason
import Themisy.Domain.Types

/-!
# Release profiles

This file embeds `internal/profile`: the profile record, its validation, and its
content hash. Decoding from YAML is left out.

The checks of capability lists and of durations are shared with the service
contracts, which repeat them under their own fields and reason codes.
-/

namespace Themisy.Contract

open Domain GoText

/-- Check the capabilities of a list one by one, remembering those already seen. -/
def validateCapabilities (code : ReasonCode) (field : String) :
    List Capability → List Capability → Except GoError Unit
  | [], _ => .ok ()
  | capability :: rest, seen => do
      require capability.valid
        (newReasonError code field ("unsupported capability " ++ quote capability.text))
      require (capability ∉ seen)
        (newReasonError code field ("duplicate capability " ++ quote capability.text))
      validateCapabilities code field rest (capability :: seen)

def validateDuration (code : ReasonCode) (field text : String) : Except GoError Unit :=
  match parseDuration text with
  | .error message => .error (.reason code field "must be a positive Go duration" (some message))
  | .ok duration =>
    require (0 < duration) (newReasonError code field "must be a positive Go duration")

/-- Capabilities in the order of their texts. -/
def sortedCapabilities (values : List Capability) : List Capability :=
  values.insertionSort fun left right => left.text ≤ right.text

/-- A release profile, as its document has it. -/
structure ReleaseProfile where
  apiVersion : String
  kind : String
  name : String
  requiredCapabilities : List Capability
  deploymentStrategy : String
  verificationRequired : Bool
  observationWindow : String
  rollbackMode : String
  contentHash : String := ""
  deriving DecidableEq

namespace ReleaseProfile

def expectedAPIVersion : String := "execution.themisy.io/v1alpha1"

def expectedKind : String := "ReleaseProfile"

def validate (profile : ReleaseProfile) : Except GoError Unit := do
  require (profile.apiVersion = expectedAPIVersion)
    (newReasonError .unsupportedSchemaVersion "apiVersion"
      ("got " ++ quote profile.apiVersion ++ ", want " ++ quote expectedAPIVersion))
  require (profile.kind = expectedKind)
    (newReasonError .invalidProfile "kind"
      ("got " ++ quote profile.kind ++ ", want " ++ quote expectedKind))
  require (isBlank profile.name = false)
    (newReasonError .invalidProfile "metadata.name" "name is required")
  require (profile.requiredCapabilities ≠ [])
    (newReasonError .missingCapability "spec.requiredCapabilities"
      "at least one capability is required")
  validateCapabilities .invalidProfile "spec.requiredCapabilities" profile.requiredCapabilities []
  require (profile.deploymentStrategy ≠ "")
    (newReasonError .invalidProfile "spec.deployment.strategy" "strategy is required")
  validateDuration .invalidProfile "spec.verification.observationWindow" profile.observationWindow
  require (profile.rollbackMode ∈ ["automatic", "approval-required", "manual-only", "unsupported"])
    (newReasonError .invalidProfile "spec.rollback.mode" "unsupported rollback mode")

/-- The canonical encoding: no content hash, and sorted capabilities. -/
def canonical (profile : ReleaseProfile) : Json :=
  .object (Json.field "apiVersion" (.text profile.apiVersion) ++
    Json.field "kind" (.text profile.kind) ++
    Json.field "metadata" (.object (Json.field "name" (.text profile.name))) ++
    Json.field "spec" (.object (
      Json.field "requiredCapabilities"
        (Json.ofSlice Capability.toJson (sortedCapabilities profile.requiredCapabilities)) ++
      Json.field "deployment"
        (.object (Json.field "strategy" (.text profile.deploymentStrategy))) ++
      Json.field "verification" (.object (
        Json.field "required" (.bool profile.verificationRequired) ++
        Json.field "observationWindow" (.text profile.observationWindow))) ++
      Json.field "rollback" (.object (Json.field "mode" (.text profile.rollbackMode))))))

def hash (digest : Digest) (profile : ReleaseProfile) : String :=
  digest.hashValue profile.canonical

end ReleaseProfile

/-- The profile of a service which is rolled back without being asked. -/
def standardProfile : ReleaseProfile where
  apiVersion := ReleaseProfile.expectedAPIVersion
  kind := ReleaseProfile.expectedKind
  name := "standard"
  requiredCapabilities := [.deploy]
  deploymentStrategy := "rolling"
  verificationRequired := true
  observationWindow := "1m"
  rollbackMode := "automatic"

end Themisy.Contract
