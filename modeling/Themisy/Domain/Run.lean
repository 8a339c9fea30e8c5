import Themisy.Collections.Int64
import Themisy.Domain.Types

/-!
# Release runs and their records

This file embeds the part of `internal/domain` which describes a release while
it runs: the run with its steps, the decisions, approvals, executions and
verifications recorded in a step, and the audit and outbox events written
together with a run.

`UpdatedAt` of a step's records and the details of events are kept as written;
nothing reads the details back.
-/

namespace Themisy.Domain

/-- The state version after another one, a machine integer. -/
def nextVersion (version : ℤ) : ℤ :=
  Int.bmod (version + 1) (2 ^ 64)

theorem nextVersion_ne (version : ℤ) : nextVersion version ≠ version := by
  simp only [nextVersion, Int.bmod_def]
  omega

theorem nextVersion_nextVersion_ne (version : ℤ) : nextVersion (nextVersion version) ≠ version := by
  simp only [nextVersion, Int.bmod_def]
  omega

/-- The states of a release run. -/
inductive RunStatus where
  | pending
  | running
  | paused
  | waitingApproval
  | succeeded
  | blocked
  | failed
  | escalated
  | cancelled
  deriving DecidableEq

def RunStatus.text : RunStatus → String
  | pending => "PENDING"
  | running => "RUNNING"
  | paused => "PAUSED"
  | waitingApproval => "WAITING_APPROVAL"
  | succeeded => "SUCCEEDED"
  | blocked => "BLOCKED"
  | failed => "FAILED"
  | escalated => "ESCALATED"
  | cancelled => "CANCELLED"

/-- The states of a release step. -/
inductive StepStatus where
  | pending
  | waitingApproval
  | executing
  | verifying
  | succeeded
  | blocked
  | rollingBack
  | rolledBack
  | escalated
  | unknown
  | cancelled
  deriving DecidableEq

/-- The decisions a policy evaluator returns. -/
inductive Decision where
  | allow
  | deny
  | requireApproval
  deriving DecidableEq

def Decision.text : Decision → String
  | allow => "ALLOW"
  | deny => "DENY"
  | requireApproval => "REQUIRE_APPROVAL"

/-- The decision on a step, as it is recorded. -/
structure PolicyDecision where
  decision : Decision
  policyVersion : String := ""
  reasonCode : String := ""
  reasonDetail : String := ""
  requiredRoles : List String := []
  inputHash : String := ""
  createdAt : Time := 0
  deriving DecidableEq

inductive ApprovalStatus where
  | pending
  | approved
  | denied
  | expired
  | revoked
  deriving DecidableEq

/-- An approval of a step: requested, and perhaps decided. -/
structure Approval where
  id : String
  requiredRoles : List String
  status : ApprovalStatus
  planHash : String
  requestedAt : Time
  expiresAt : Time
  decidedBy : String := ""
  decidedAt : Option Time := none
  deriving DecidableEq

structure ApprovalSummary where
  approval : Approval
  runID : String
  service : String
  tenantID : String
  deriving DecidableEq

structure Execution where
  id : String
  adapter : String
  idempotencyKey : String
  status : String
  externalExecutionID : String
  startedAt : Time
  finishedAt : Time
  deriving DecidableEq, Inhabited

inductive VerificationStatus where
  | pass
  | fail
  | inconclusive
  | missing
  | other (text : String) (unlisted : text ∉ ["PASS", "FAIL", "INCONCLUSIVE", "MISSING"])
  deriving DecidableEq, Inhabited

namespace VerificationStatus

def text : VerificationStatus → String
  | pass => "PASS"
  | fail => "FAIL"
  | inconclusive => "INCONCLUSIVE"
  | missing => "MISSING"
  | other text _ => text

def valid : VerificationStatus → Bool
  | other _ _ => false
  | _ => true

end VerificationStatus

structure Evidence where
  source : String
  queryHash : String
  windowFrom : Time
  windowTo : Time
  observedAt : Time
  observedValue : Float64
  threshold : Float64
  adapterVersion : String
  evidenceHash : String
  deriving DecidableEq, Inhabited

structure Verification where
  status : VerificationStatus
  healthy : Bool
  reason : String
  observedValue : Float64
  threshold : Float64
  checkedAt : Time
  evidence : Evidence
  deriving DecidableEq

/-- A step of a run, with what has been decided and done. -/
structure ReleaseStep where
  service : String
  phase : ℤ
  wave : ℕ := 0
  status : StepStatus
  change : Change
  policy : Option PolicyDecision := none
  approval : Option Approval := none
  execution : Option Execution := none
  verification : Option Verification := none
  verificationRequired : Bool
  observationWindow : String
  rollbackMode : RollbackMode
  rollbackExecution : Option Execution := none
  rollbackVerification : Option Verification := none
  failure : String := ""
  deriving DecidableEq

/-- A run of a release plan. -/
structure ReleaseRun where
  id : String
  requestID : String
  releaseVersion : String
  environment : Environment
  requestedBy : String
  subjectType : String := ""
  subjectIssuer : String := ""
  userIdentityProof : String := ""
  tenantID : String
  region : String
  cluster : String
  runnerGroup : String := ""
  delegationRef : String := ""
  agent : AgentIdentity
  plan : ReleasePlan
  status : RunStatus
  /-- The empty text of the source is `none`. -/
  pausedFrom : Option RunStatus := none
  steps : List ReleaseStep
  stateVersion : ℤ
  workflowID : String
  temporalRunID : String := ""
  createdAt : Time
  updatedAt : Time
  deriving DecidableEq

/-- A run with the version after an expected one. -/
abbrev ReleaseRun.advanced (run : ReleaseRun) (version : ℤ) : ReleaseRun :=
  { run with stateVersion := nextVersion version }

/-- What an outbox event carries: some fields, or the encoding of a run. -/
inductive OutboxPayload where
  | fields (value : Json)
  | run (projected : ReleaseRun)

structure OutboxEvent where
  id : String
  aggregateType : String
  aggregateID : String
  eventType : String
  payload : OutboxPayload := .fields .null
  createdAt : Time
  availableAt : Time
  publishedAt : Option Time := none
  attempts : ℤ := 0

/-- An entry of the audit log. -/
structure AuditEvent where
  id : String
  correlationID : String
  actorType : String
  actorID : String
  delegatedBy : String := ""
  action : String
  resourceType : String
  resourceID : String
  result : String
  details : Json := .null
  timestamp : Time

/-- A run without steps. -/
def pilotRun : ReleaseRun where
  id := "run-1"
  requestID := "request-1"
  releaseVersion := "v2"
  environment := .staging
  requestedBy := "alice"
  tenantID := "tenant"
  region := "eu"
  cluster := "main"
  agent := { id := "agent" }
  plan := {
    apiVersion := "v1", id := "plan-1", releaseVersion := "v2", environment := .staging
    phases := [], hash := "", planHash := "", contractHashes := ∅, profileHashes := ∅
    contextSnapshotRef := "", policyHash := "", evidenceHash := "", createdAt := 0
    expiresAt := 9 }
  status := .pending
  steps := []
  stateVersion := 1
  workflowID := "workflow-1"
  createdAt := 0
  updatedAt := 0

end Themisy.Domain
