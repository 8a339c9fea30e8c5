import Themisy.Grant.Verifier
import Themisy.Identity.Delegation
import Themisy.Interaction.Prog
import Themisy.Policy.Input
import Themisy.Store.Memory

/-!
# The runner

This file embeds `internal/runner`: `Execute`, which authorizes one action grant
and performs its write, and `Reconcile`, which resolves the writes whose outcome
is not known.

Both are programs whose requests are the calls of the runner's components. A
component which is nil is not configured, and the program says what happens
then. `Execute` is cut into its stages, in the order of the source; leaving the
function early is an exception.
-/

namespace Themisy

/-- A typed adapter, which may name the provider of its credentials. -/
structure Runner.Adapter where
  credentialProvider : Option String := none
  deriving DecidableEq

def Runner.Adapter.provider (adapter : Runner.Adapter) : String :=
  adapter.credentialProvider.getD "typed-adapter"

/-- The configuration of a runner: which of its components are not nil. -/
structure Runner where
  tenantID : String
  runnerGroup : String
  grants : Bool := true
  subjects : Bool := true
  delegations : Bool := true
  contexts : Bool := true
  approvals : Bool := true
  capabilities : List Protocol.Capability
  policy : Bool := true
  journal : Bool := true
  credentials : Bool := true
  adapter : Option Runner.Adapter := some {}
  connectivity : Bool := true
  deriving DecidableEq

namespace Runner

open Domain Protocol Grant Identity Store Interaction

/-- The reasons of a rejection. -/
inductive Reason where
  | disconnected
  | tenant
  | replay
  | identity
  | delegation
  | hashMismatch
  | approval
  | capability
  | policyDeny
  | policyMismatch
  | journalUnavailable
  | credential
  | externalUnknown
  | wrongRunnerAudience
  | expiredGrant
  deriving DecidableEq

def Reason.text : Reason → String
  | disconnected => "CONTROL_PLANE_DISCONNECTED"
  | tenant => "WRONG_TENANT"
  | replay => "NONCE_REPLAY"
  | identity => "IDENTITY_INVALID"
  | delegation => "DELEGATION_SCOPE_DENIED"
  | hashMismatch => "HASH_MISMATCH"
  | approval => "APPROVAL_PROOF_MISSING"
  | capability => "UNSUPPORTED_CAPABILITY"
  | policyDeny => "RUNNER_POLICY_DENY"
  | policyMismatch => "POLICY_MISMATCH"
  | journalUnavailable => "AUDIT_JOURNAL_UNAVAILABLE"
  | credential => "CREDENTIAL_UNAVAILABLE"
  | externalUnknown => "EXTERNAL_STATE_UNKNOWN"
  | wrongRunnerAudience => "WRONG_RUNNER_AUDIENCE"
  | expiredGrant => "EXPIRED_GRANT"

structure Rejection where
  reason : Reason
  error : Option GoError := none
  deriving DecidableEq

/-- What the control plane has pinned for the step. -/
structure PinnedContext where
  planHash : String
  contractHash : String
  profileHash : String
  policyHash : String
  evidenceHash : String
  approvalRequired : Bool
  target : Target
  action : Action
  deriving DecidableEq

inductive Purpose where
  | deploy
  | rollback
  | verify
  deriving DecidableEq

structure CredentialRequest where
  provider : String
  tenantID : String
  service : String
  environment : String
  purpose : Purpose
  deriving DecidableEq

structure Credential where
  values : GoMap String (List UInt8)
  expiresAt : Time

structure AdapterRequest where
  grantID : String
  runID : String
  stepID : String
  target : Target
  action : Action
  idempotencyKey : String
  dispatchedAt : Time
  deriving DecidableEq

structure AdapterResult where
  externalExecutionID : String
  completedAt : Time
  deriving DecidableEq

/-- What the runner asks of its components. -/
inductive Op where
  | verifyGrant (grant : ActionGrant)
  | connected
  | verifySubject (proof : String)
  | verifyDelegation (request : DelegationRequest)
  | resolveContext (runID stepID : String)
  | verifyApprovals (grant : ActionGrant) (subject : Subject)
  | evaluatePolicy (input : Policy.Input)
  | now
  | getRunnerAction (tenantID runnerGroup nonce : String)
  | reserveRunnerAction (record : RunnerActionRecord) (audit : AuditEvent)
  | completeRunnerAction (record : RunnerActionRecord) (expected : ℤ) (audit : AuditEvent)
  | pendingRunnerActions (tenantID runnerGroup : String) (limit : ℤ)
  | acquireCredential (request : CredentialRequest)
  | executeAdapter (request : AdapterRequest) (credential : Credential)
  | reconcileAdapter (request : AdapterRequest) (credential : Credential)

abbrev Op.Res : Op → Type
  | verifyGrant _ => Except GrantError Unit
  | connected => Bool
  | verifySubject _ => Except GoError Subject
  | verifyDelegation _ => Except GoError Delegation
  | resolveContext _ _ => Except GoError PinnedContext
  | verifyApprovals _ _ => Except GoError Unit
  | evaluatePolicy _ => Except GoError Policy.Evaluation
  | now => Time
  | getRunnerAction _ _ _ => Except StoreError RunnerActionRecord
  | reserveRunnerAction _ _ => Except StoreError (RunnerActionRecord × Bool)
  | completeRunnerAction _ _ _ => Except StoreError Unit
  | pendingRunnerActions _ _ _ => Except StoreError (List RunnerActionRecord)
  | acquireCredential _ => Except GoError Credential
  | executeAdapter _ _ => Except GoError AdapterResult
  | reconcileAdapter _ _ => Except GoError (AdapterResult × Bool)

abbrev requests : Sig := ⟨Op, Op.Res⟩

/-- What `Execute` returns: a result and possibly a rejection. -/
abbrev Exit := Result × Option Rejection

/-- Statements of `Execute`, which may leave the function. -/
abbrev Call (α : Type) := ExceptT Exit (Prog requests) α

def ask (op : Op) : Call op.Res :=
  ExceptT.lift (Prog.perform (S := requests) op)

def journalAudit (id correlationID action result : String) (timestamp : Time) (details : Json) :
    AuditEvent where
  id
  correlationID
  actorType := "runner"
  actorID := "customer-runner"
  action
  resourceType := "action_grant"
  resourceID := correlationID
  result
  details
  timestamp

def auditID (grantID action : String) (version : ℤ) : String :=
  "runner/" ++ grantID ++ "/" ++ action ++ "/" ++ toString version

def grantErrorToGoError : GrantError → GoError
  | .invalidProtocol detail => .wrapped "INVALID_PROTOCOL_VERSION" detail
  | .invalidSignature none => .plain "INVALID_GRANT_SIGNATURE"
  | .invalidSignature (some detail) => .wrapped "INVALID_GRANT_SIGNATURE" detail
  | .invalidIssuer => .plain "INVALID_GRANT_ISSUER"
  | .wrongAudience => .plain "WRONG_RUNNER_AUDIENCE"
  | .wrongTenant => .plain "WRONG_TENANT"
  | .expired => .plain "EXPIRED_GRANT"
  | .other error => error

def reasonForGrant : GrantError → Reason
  | .expired => .expiredGrant
  | .wrongAudience => .wrongRunnerAudience
  | .wrongTenant => .tenant
  | _ => .identity

def matchingHashes (grant : ActionGrant) (pinned : PinnedContext) : Prop :=
  grant.planHash = pinned.planHash ∧ grant.contractHash = pinned.contractHash ∧
    grant.profileHash = pinned.profileHash ∧ grant.policyHash = pinned.policyHash ∧
    grant.evidenceHash = pinned.evidenceHash ∧ grant.target = pinned.target ∧
    grant.action = pinned.action

instance (grant : ActionGrant) (pinned : PinnedContext) : Decidable (matchingHashes grant pinned) :=
  inferInstanceAs (Decidable (_ ∧ _))

/-- The answer to a grant whose nonce or idempotency key has a record. -/
def replayResult (grant : ActionGrant) (record : RunnerActionRecord) (requestHash : String) :
    Exit :=
  if record.requestHash ≠ requestHash then
    ({ status := some .rejected, reasonCode := Reason.replay.text }, some ⟨.replay, none⟩)
  else if record.status = some .succeeded then (record.result, none)
  else
    ({ protocolVersion := versionV1Alpha1
       grantID := grant.grantID
       runID := grant.runID
       stepID := grant.stepID
       status := some .reconciliation
       reasonCode := Reason.replay.text }, some ⟨.replay, none⟩)

def reject {α : Type} (grant : ActionGrant) (reason : Reason) (error : Option GoError) :
    Call α := do
  let completedAt : Time ← ask .now
  throw
    ({ protocolVersion := versionV1Alpha1
       grantID := grant.grantID
       runID := grant.runID
       stepID := grant.stepID
       status := some .rejected
       reasonCode := reason.text
       completedAt }, some ⟨reason, error⟩)

/-- The statement which rejects the grant unless the condition holds. -/
def check (grant : ActionGrant) (condition : Prop) [Decidable condition] (reason : Reason)
    (error : Option GoError) : Call Unit :=
  if condition then pure () else reject grant reason error

/-- The statement which rejects the grant when the previous call has failed. -/
def accept {α : Type} (grant : ActionGrant) (reason : Reason) : Except GoError α → Call α
  | .ok value => pure value
  | .error error => reject grant reason (some error)

section Statements

variable (runner : Runner)

/-- Verify the grant and its audience; the result is the hash of the request. -/
def verifyGrant (digest : Digest) (order : IterationOrder (String × String)) (grant : ActionGrant) :
    Call String := do
  check grant (runner.grants = true) .identity (some (.plain "grant verifier unavailable"))
  match (← ask (.verifyGrant grant) : Except GrantError Unit) with
  | .error error => reject grant (reasonForGrant error) (some (grantErrorToGoError error))
  | .ok () => pure ()
  check grant (runner.tenantID ≠ "" ∧ grant.tenantID = runner.tenantID) .tenant none
  check grant (runner.runnerGroup ≠ "" ∧ grant.runnerGroup = runner.runnerGroup)
    .wrongRunnerAudience none
  accept grant .hashMismatch (grantHash digest order grant)

/-- Leave with the recorded result when the nonce has been used. -/
def checkReplay (grant : ActionGrant) (requestHash : String) : Call Unit := do
  check grant (runner.journal = true) .journalUnavailable none
  match (← ask (.getRunnerAction grant.tenantID grant.runnerGroup grant.nonce) :
      Except StoreError RunnerActionRecord) with
  | .ok existing => throw (replayResult grant existing requestHash)
  | .error .notFound => pure ()
  | .error error => reject grant .journalUnavailable (some error.toGoError)

def verifySubject (grant : ActionGrant) : Call Subject := do
  check grant (runner.connectivity = true) .disconnected none
  let connected : Bool ← ask .connected
  check grant (connected = true) .disconnected none
  check grant (runner.subjects = true ∧ grant.userIdentityProof ≠ "") .identity none
  let subject ← accept grant .identity (← ask (.verifySubject grant.userIdentityProof))
  check grant (subject.id = grant.userSubject) .identity none
  return subject

def delegationRequest (grant : ActionGrant) (subject : Subject) : DelegationRequest where
  reference := grant.delegationRef
  subject
  agentID := grant.agentID
  capability := grant.action.capability
  service := grant.target.service
  environment := grant.target.environment
  risk := grant.risk

def verifyDelegation (grant : ActionGrant) (subject : Subject) : Call Delegation := do
  check grant (runner.delegations = true) .delegation none
  accept grant .delegation (← ask (.verifyDelegation (delegationRequest grant subject)))

def resolveContext (grant : ActionGrant) : Call PinnedContext := do
  check grant (runner.contexts = true) .hashMismatch none
  let pinned ← accept grant .hashMismatch (← ask (.resolveContext grant.runID grant.stepID))
  check grant (matchingHashes grant pinned) .hashMismatch none
  return pinned

def verifyApprovals (grant : ActionGrant) (subject : Subject) (pinned : PinnedContext) :
    Call Unit := do
  check grant (¬(pinned.approvalRequired = true ∧ grant.approvalProofs = [])) .approval none
  if grant.approvalProofs = [] then pure ()
  else
    check grant (runner.approvals = true) .approval none
    let verified : Except GoError Unit ← ask (.verifyApprovals grant subject)
    check grant (verified.isOk = true) .approval none

def evaluatePolicy (grant : ActionGrant) (subject : Subject) (delegation : Delegation) :
    Call Unit := do
  check grant (grant.action.capability ∈ runner.capabilities) .capability none
  check grant (runner.policy = true) .policyDeny (some (.plain "local OPA unavailable"))
  let evaluation ← accept grant .policyDeny (← ask (.evaluatePolicy
    (Policy.inputForGrant grant subject.issuer subject.id delegation.agentID delegation.id)))
  check grant (evaluation.decision = .allow) .policyDeny none
  check grant (evaluation.inputHash = grant.policyInputHash ∧
    evaluation.policyHash = grant.policyHash) .policyMismatch none

/-- Every check before the reservation; the result is the hash of the request. -/
def authorize (digest : Digest) (order : IterationOrder (String × String)) (grant : ActionGrant) :
    Call String := do
  let requestHash ← runner.verifyGrant digest order grant
  runner.checkReplay grant requestHash
  let subject ← runner.verifySubject grant
  let delegation ← runner.verifyDelegation grant subject
  let pinned ← runner.resolveContext grant
  runner.verifyApprovals grant subject pinned
  runner.evaluatePolicy grant subject delegation
  return requestHash

/-- Record that the outcome of a reserved write is not known. -/
def failReserved (record : RunnerActionRecord) (grant : ActionGrant) (reason : Reason)
    (cause : GoError) : Call Result := do
  let completedAt : Time ← ask .now
  let result : Result :=
    { protocolVersion := versionV1Alpha1
      grantID := grant.grantID
      runID := grant.runID
      stepID := grant.stepID
      status := some .unknown
      reasonCode := reason.text
      completedAt }
  let updatedAt : Time ← ask .now
  let _ ← ask (.completeRunnerAction
    { record with status := some .unknown, result, updatedAt } record.stateVersion
    (journalAudit (auditID grant.grantID "unknown" (nextVersion record.stateVersion)) grant.grantID
      "runner.action.complete" "UNKNOWN" updatedAt
      (.object (Json.field "reason_code" (.text reason.text)))))
  throw (result, some ⟨reason, some cause⟩)

def purposeOf (action : Action) : Purpose :=
  if action.capability = .rollback then .rollback else .deploy

def credentialRequest (adapter : Adapter) (grant : ActionGrant) : CredentialRequest where
  provider := adapter.provider
  tenantID := grant.tenantID
  service := grant.target.service
  environment := grant.target.environment
  purpose := purposeOf grant.action

def adapterRequest (grant : ActionGrant) (dispatchedAt : Time) : AdapterRequest where
  grantID := grant.grantID
  runID := grant.runID
  stepID := grant.stepID
  target := grant.target
  action := grant.action
  idempotencyKey := grant.idempotencyKey
  dispatchedAt

/-- Record the outcome of a write which the adapter has performed. -/
def completeReserved (record : RunnerActionRecord) (grant : ActionGrant) (outcome : AdapterResult) :
    Call Result := do
  let result : Result :=
    { protocolVersion := versionV1Alpha1
      grantID := grant.grantID
      runID := grant.runID
      stepID := grant.stepID
      status := some .succeeded
      externalExecutionID := outcome.externalExecutionID
      completedAt := outcome.completedAt }
  let updatedAt : Time ← ask .now
  let completed : Except StoreError Unit ← ask (.completeRunnerAction
    { record with status := some .succeeded, result, updatedAt } record.stateVersion
    (journalAudit (auditID grant.grantID "complete" (nextVersion record.stateVersion)) grant.grantID
      "runner.action.complete" "SUCCEEDED" updatedAt
      (.object (Json.field "external_execution_id" (.text result.externalExecutionID)))))
  match completed with
  | .error error => reject grant .externalUnknown (some error.toGoError)
  | .ok () => return result

def write (record : RunnerActionRecord) (grant : ActionGrant) (dispatchedAt : Time) :
    Call Result :=
  match runner.credentials, runner.adapter with
  | true, some adapter => do
      let credential : Except GoError Credential ←
        ask (.acquireCredential (credentialRequest adapter grant))
      match credential with
      | .error error => failReserved record grant .credential error
      | .ok credential => do
          let outcome : Except GoError AdapterResult ←
            ask (.executeAdapter (adapterRequest grant dispatchedAt) credential)
          match outcome with
          | .error error => failReserved record grant .externalUnknown error
          | .ok outcome => completeReserved record grant outcome
  | _, _ => failReserved record grant .credential (.plain "credential or adapter unavailable")

def newRecord (grant : ActionGrant) (requestHash : String) (now : Time) : RunnerActionRecord where
  grantID := grant.grantID
  runID := grant.runID
  stepID := grant.stepID
  tenantID := grant.tenantID
  runnerGroup := grant.runnerGroup
  nonce := grant.nonce
  idempotencyKey := grant.idempotencyKey
  requestHash
  target := grant.target
  action := grant.action
  createdAt := now
  updatedAt := now

def reserveAudit (grant : ActionGrant) (requestHash : String) (now : Time) : AuditEvent :=
  journalAudit (auditID grant.grantID "reserve" 1) grant.grantID "runner.action.reserve"
    "AUTHORIZED" now (.object (Json.field "request_hash" (.text requestHash)))

def dispatch (grant : ActionGrant) (requestHash : String) : Call Result := do
  let now : Time ← ask .now
  let reserved : Except StoreError (RunnerActionRecord × Bool) ← ask (.reserveRunnerAction
    (newRecord grant requestHash now) (reserveAudit grant requestHash now))
  match reserved with
  | .error error => reject grant .journalUnavailable (some error.toGoError)
  | .ok (record, false) => throw (replayResult grant record requestHash)
  | .ok (record, true) => runner.write record grant now

/-- The statements of `Execute` up to its last return. -/
def perform (digest : Digest) (order : IterationOrder (String × String)) (grant : ActionGrant) :
    Call Result := do
  let requestHash ← runner.authorize digest order grant
  runner.dispatch grant requestHash

def execute (digest : Digest) (order : IterationOrder (String × String)) (grant : ActionGrant) :
    Prog requests Exit := do
  match ← (runner.perform digest order grant).run with
  | .ok result => return (result, none)
  | .error exit => return exit

def recordRequest (record : RunnerActionRecord) : AdapterRequest where
  grantID := record.grantID
  runID := record.runID
  stepID := record.stepID
  target := record.target
  action := record.action
  idempotencyKey := record.idempotencyKey
  dispatchedAt := record.createdAt

/-- Record the outcome which the reconciler has found. -/
def completeFound (record : RunnerActionRecord) (found : AdapterResult) :
    Prog requests (Option GoError) := do
  let now : Time ← Prog.perform (S := requests) Op.now
  let result : Result :=
    { protocolVersion := versionV1Alpha1
      grantID := record.grantID
      runID := record.runID
      stepID := record.stepID
      status := some .succeeded
      externalExecutionID := found.externalExecutionID
      completedAt := found.completedAt }
  let completed : Except StoreError Unit ← Prog.perform (S := requests) (Op.completeRunnerAction
    { record with status := some .succeeded, result, updatedAt := now } record.stateVersion
    (journalAudit (auditID record.grantID "reconcile" (nextVersion record.stateVersion))
      record.grantID "runner.action.reconcile" "SUCCEEDED" now .null))
  match completed with
  | .error error => return some error.toGoError
  | .ok () => return none

/-- The loop over the pending records; the result is the error it stops with. -/
def reconcileRecords (reconciler : Adapter) :
    List RunnerActionRecord → Prog requests (Option GoError)
  | [] => return none
  | record :: rest =>
    if runner.credentials = false then
      return some (.plain "reconciliation credential unavailable")
    else do
      let acquired : Except GoError Credential ← Prog.perform (S := requests)
        (Op.acquireCredential
          { provider := reconciler.provider
            tenantID := record.tenantID
            service := record.target.service
            environment := record.target.environment
            purpose := purposeOf record.action })
      match acquired with
      | .error _ => reconcileRecords reconciler rest
      | .ok credential => do
          let outcome : Except GoError (AdapterResult × Bool) ← Prog.perform (S := requests)
            (Op.reconcileAdapter (recordRequest record) credential)
          match outcome with
          | .error _ => reconcileRecords reconciler rest
          | .ok (_, false) => reconcileRecords reconciler rest
          | .ok (found, true) => do
              match ← completeFound record found with
              | some error => return some error
              | none => reconcileRecords reconciler rest

def reconcile (reconciler : Option Adapter) (limit : ℤ) : Prog requests (Option GoError) :=
  match runner.journal, reconciler with
  | true, some reconciler =>
    if runner.tenantID = "" ∨ runner.runnerGroup = "" then
      return some (.plain "runner identity unavailable")
    else do
      let pending : Except StoreError (List RunnerActionRecord) ← Prog.perform (S := requests)
        (Op.pendingRunnerActions runner.tenantID runner.runnerGroup limit)
      match pending with
      | .error error => return some error.toGoError
      | .ok records => runner.reconcileRecords reconciler records
  | _, _ => return some (.plain "reconciliation unavailable")

end Statements

end Runner

end Themisy
