import Themisy.Domain.Run
import Themisy.Protocol.ActionGrant

/-!
# Policy inputs

This file embeds `internal/policy/input.go` without the inputs of the control plane:
the input of a policy evaluation, its canonical encoding and its hash, the input
made from a grant, and the evaluation which is returned.
-/

namespace Themisy.Policy

open Domain Protocol

def inputVersionV1Alpha1 : String := "themisy.policy.input/v1alpha1"

structure Input where
  version : String := ""
  tenantID : String := ""
  runnerGroup : String := ""
  subjectType : String := ""
  userID : String
  userIssuer : String := ""
  agentID : String
  delegationRef : String := ""
  agentScopes : List String := []
  environment : Environment
  service : String
  capability : Protocol.Capability
  artifactDigest : String := ""
  risk : String
  planHash : String := ""
  contractHash : String := ""
  profileHash : String := ""
  policyHash : String := ""
  evidenceHash : String := ""
  approvalProofs : List String := []
  ciSuccess : Bool
  dependenciesHealthy : Bool
  destructiveMigration : Bool := false
  deriving DecidableEq

structure Evaluation where
  decision : Decision
  reasons : List String
  requiredRoles : List String := []
  inputHash : String
  policyVersion : String
  policyHash : String := ""
  deriving DecidableEq

def normalizeInput (input : Input) : Input :=
  { input with
    version := if input.version = "" then inputVersionV1Alpha1 else input.version
    approvalProofs := sortStrings input.approvalProofs }

/-- The encoding of an input; the scopes of the agent and the migration are not part of it. -/
def Input.toJson (input : Input) : Json :=
  .object (Json.optionalText "version" input.version ++
    Json.optionalText "tenant_id" input.tenantID ++
    Json.optionalText "runner_group" input.runnerGroup ++
    Json.optionalText "subject_type" input.subjectType ++
    Json.field "user_id" (.text input.userID) ++
    Json.optionalText "user_issuer" input.userIssuer ++
    Json.field "agent_id" (.text input.agentID) ++
    Json.optionalText "delegation_ref" input.delegationRef ++
    Json.field "environment" (.text input.environment.text) ++
    Json.field "service" (.text input.service) ++
    Json.optionalText "capability" input.capability.text ++
    Json.optionalText "artifact_digest" input.artifactDigest ++
    Json.field "risk" (.text input.risk) ++
    Json.optionalText "plan_hash" input.planHash ++
    Json.optionalText "contract_hash" input.contractHash ++
    Json.optionalText "profile_hash" input.profileHash ++
    Json.optionalText "policy_hash" input.policyHash ++
    Json.optionalText "evidence_hash" input.evidenceHash ++
    Json.optionalSlice "approval_proofs" Json.text input.approvalProofs ++
    Json.field "ci_success" (.bool input.ciSuccess) ++
    Json.field "dependencies_healthy" (.bool input.dependenciesHealthy))

def canonicalInput (input : Input) : Json :=
  (normalizeInput input).toJson

def inputHash (digest : Digest) (input : Input) : String :=
  digest.hashValue (canonicalInput input)

def inputForGrant (grant : ActionGrant)
    (userIssuer verifiedUser verifiedAgent verifiedDelegation : String) : Input :=
  normalizeInput {
    version := inputVersionV1Alpha1
    tenantID := grant.tenantID
    runnerGroup := grant.runnerGroup
    subjectType := grant.subjectType
    userID := verifiedUser
    userIssuer
    agentID := verifiedAgent
    delegationRef := verifiedDelegation
    environment := .ofText grant.target.environment
    service := grant.target.service
    capability := grant.action.capability
    artifactDigest := grant.action.artifactDigest
    risk := grant.risk
    planHash := grant.planHash
    contractHash := grant.contractHash
    profileHash := grant.profileHash
    policyHash := grant.policyHash
    evidenceHash := grant.evidenceHash
    approvalProofs := grant.approvalProofs
    ciSuccess := true
    dependenciesHealthy := true }

end Themisy.Policy
