import Themisy.Application.NewRun
import Themisy.Policy.Engine
import Themisy.Workflow.Release

/-!
# The synchronous engine

This file embeds `internal/engine/engine.go`, the facade which carries a release
out inside the call that starts, approves or resumes it. A call is a program.

The helpers `cancelDownstream`, `containsAll` and `domainVerification` have the same
statements as their namesakes of the release workflow, which are used here. Every
early return of `advance` persists the run, so an iteration over the steps says
whether the release goes on.
-/

namespace Themisy

open Domain Planning Store Interaction

/-- The configuration of the engine, apart from the store, the policy and the executor. -/
structure Engine where
  digest : Digest
  planner : Planner

namespace Engine

open Workflow (Deployment DeployRequest VerificationResult)
open Workflow.Release (cancelDownstream cancelSteps containsAll failStep selectedServices setStep
  succeededServices verificationProjection)

inductive EngineError where
  | go (error : GoError)
  | invalidRequest (detail : String)
  | approval (detail : String)
  | store (error : StoreError)
  | wrapped (context : String) (error : EngineError)
  deriving DecidableEq

/-- An error, with the flag `created` which `Start` returns together with it. -/
structure Failure where
  error : EngineError
  created : Bool := false
  deriving DecidableEq

/-- What the engine asks of its components. -/
inductive Op where
  | now
  | newID (kind : String)
  | iterationOrder
  | createRun (run : ReleaseRun)
  | getRun (id : String)
  | updateRun (run : ReleaseRun) (expectedVersion : ℤ)
  | appendAudit (event : AuditEvent)
  | evaluate (input : Policy.Input)
  | deploy (request : DeployRequest)
  | verify (deployment : Deployment)
  | rollback (deployment : Deployment)

abbrev Op.Res : Op → Type
  | now => Time
  | newID _ => String
  | iterationOrder => IterationOrder String
  | createRun _ => Except StoreError (ReleaseRun × Bool)
  | getRun _ => Except StoreError ReleaseRun
  | updateRun _ _ | appendAudit _ => Except StoreError Unit
  | evaluate _ => PolicyDecision
  | deploy _ => Except String Deployment
  | verify _ => Except String VerificationResult
  | rollback _ => Except String Deployment

abbrev requests : Sig := ⟨Op, Op.Res⟩

/-- Answered requests. -/
abbrev History := List (Event requests)

abbrev Call (α : Type) := ExceptT Failure (Prog requests) α

def ask (op : Op) : Call op.Res :=
  ExceptT.lift (Prog.perform (S := requests) op)

def returning {α : Type} (created : Bool) : Except EngineError α → Call α
  | .ok value => pure value
  | .error error => throw { error, created }

def stored {α : Type} (answer : Except StoreError α) : Call α :=
  returning false (answer.mapError .store)

/-- The method `audit`; its callers decide what an error means. -/
def audit (run : ReleaseRun) (actorType actorID action resourceType resourceID result : String)
    (details : Json) : Call (Except StoreError Unit) := do
  let id : String ← ask (.newID "audit")
  let timestamp : Time ← ask .now
  ask (.appendAudit
    { id
      correlationID := run.id
      actorType
      actorID
      delegatedBy := run.requestedBy
      action
      resourceType
      resourceID
      result
      details
      timestamp })

def persist (run : ReleaseRun) (expectedVersion : ℤ) : Call Unit := do
  let updatedAt : Time ← ask .now
  stored (← ask (.updateRun { run with updatedAt } expectedVersion))

def policyInput (run : ReleaseRun) (step : ReleaseStep) : Policy.Input where
  userID := run.requestedBy
  agentID := run.agent.id
  agentScopes := sortStrings run.agent.scopes
  environment := run.environment
  service := step.service
  capability := .other "" (by decide)
  ciSuccess := step.change.ciSuccess
  dependenciesHealthy := step.change.dependenciesHealthy
  destructiveMigration := step.change.destructiveMigration
  risk := step.change.risk

def newApproval (id : String) (now : Time) (run : ReleaseRun) (decision : PolicyDecision) :
    Approval where
  id
  requiredRoles := decision.requiredRoles
  status := .pending
  planHash := run.plan.hash
  requestedAt := now
  expiresAt := now + Workflow.Release.approvalLifetime

def idempotencyKey (run : ReleaseRun) (step : ReleaseStep) : String :=
  run.id ++ "/" ++ run.environment.text ++ "/" ++ step.service ++ "/" ++ step.change.desiredVersion

def newExecution (id key : String) (deployment : Deployment) : Execution where
  id
  adapter := ""
  idempotencyKey := key
  status := ""
  externalExecutionID := deployment.externalID
  startedAt := deployment.startedAt
  finishedAt := deployment.finishedAt

/-- How one iteration of the loop over the steps ends. -/
inductive Progress where
  /-- The run is persisted and the loop is left. -/
  | stopped (run : ReleaseRun)
  | goesOn (run : ReleaseRun) (succeeded : GoMap String Bool)

def stopAt (run : ReleaseRun) (index : ℕ) (status : StepStatus) (failure : String)
    (runStatus : RunStatus) : ReleaseRun :=
  cancelDownstream (index + 1) (failStep run index status failure runStatus)

def block (run : ReleaseRun) (index : ℕ) (failure : String) : Progress :=
  .stopped (stopAt run index .blocked failure .blocked)

def unmetDependency (services : GoMap String Service) (service : String)
    (selected succeeded : GoMap String Bool) : Option String :=
  (services.find service ServiceDefinition.zero.service).dependencies.find? fun dependency =>
    selected.find dependency false ∧ ¬succeeded.find dependency false

def requestApproval (run : ReleaseRun) (index : ℕ) (step : ReleaseStep)
    (decision : PolicyDecision) : Call Progress := do
  let approval : Approval ← match step.approval with
    | some approval => pure approval
    | none => do
        let now : Time ← ask .now
        let id : String ← ask (.newID "approval")
        pure (newApproval id now run decision)
  let waiting :=
    { setStep run index fun step =>
        { step with approval := some approval, status := .waitingApproval } with
      status := .waitingApproval }
  match (← audit waiting "system" "policy-engine" "approval.request" "approval" approval.id
      "PENDING" (.object (Json.field "required_roles"
        (Json.ofSlice Json.text approval.requiredRoles)))) with
  | .error _ => return block waiting index "audit unavailable before approval request"
  | .ok () => return .stopped waiting

/-- Roll a deployment back and verify the rollback; the result has the statuses of the outcome. -/
def performRollback (run : ReleaseRun) (index : ℕ) (key reason : String)
    (deployment : Deployment) : Call ReleaseRun := do
  match (← ask (.rollback deployment) : Except String Deployment) with
  | .error message =>
    return failStep run index .escalated ("rollback failed: " ++ message) .escalated
  | .ok rolledBack =>
    let id : String ← ask (.newID "rollback")
    let recorded := setStep run index fun step =>
      { step with rollbackExecution := some (newExecution id (key ++ "/rollback") rolledBack) }
    match (← ask (.verify rolledBack) : Except String VerificationResult) with
    | .error _ =>
      return failStep recorded index .escalated "rollback verification failed or unavailable"
        .escalated
    | .ok result =>
      let checkedAt : Time ← ask .now
      let verified := setStep recorded index fun step =>
        { step with rollbackVerification := some (verificationProjection result checkedAt) }
      if result.outcome ≠ .pass then
        return failStep verified index .escalated "rollback verification failed or unavailable"
          .escalated
      else return failStep verified index .rolledBack reason .failed

/-- What follows a verification which did not pass. -/
def rollbackStep (run : ReleaseRun) (index : ℕ) (step : ReleaseStep) (key reason : String)
    (deployment : Deployment) : Call Progress := do
  let rolling := setStep run index fun step => { step with status := .rollingBack }
  let _ ← audit rolling "system" "verifier" "rollback.start" "service" step.service
    "HEALTH_CHECK_FAILED" .null
  if step.rollbackMode ≠ .automatic then
    return .stopped (stopAt rolling index .escalated
      ("automatic rollback is not authorized: " ++ step.rollbackMode.text) .escalated)
  else
    let rolled ← performRollback rolling index key reason deployment
    return .stopped (cancelDownstream (index + 1) rolled)

def verifyStep (run : ReleaseRun) (succeeded : GoMap String Bool) (index : ℕ) (step : ReleaseStep)
    (key : String) (deployment : Deployment) : Call Progress := do
  let id : String ← ask (.newID "execution")
  let verifying := setStep run index fun step =>
    { step with execution := some (newExecution id key deployment), status := .verifying }
  match (← ask (.verify deployment) : Except String VerificationResult) with
  | .error message => return block verifying index ("verification unavailable: " ++ message)
  | .ok result =>
    let checkedAt : Time ← ask .now
    let verified := setStep verifying index fun step =>
      { step with verification := some (verificationProjection result checkedAt) }
    if result.outcome ≠ .pass then
      rollbackStep verified index step key result.reason deployment
    else
      let completed := setStep verified index fun step => { step with status := .succeeded }
      let _ ← audit completed "system" "verifier" "deployment.verify" "service" step.service
        "SUCCEEDED" .null
      return .goesOn completed (succeeded.set step.service true)

def deployStep (run : ReleaseRun) (succeeded : GoMap String Bool) (index : ℕ) (step : ReleaseStep)
    (decision : PolicyDecision) : Call Progress := do
  let executing := setStep run index fun step => { step with status := .executing }
  let key := idempotencyKey run step
  match (← audit executing "agent" run.agent.id "deployment.start" "service" step.service
      "AUTHORIZED" (.object (Json.field "idempotency_key" (.text key) ++
        Json.field "policy_version" (.text decision.policyVersion)))) with
  | .error _ => return block executing index "audit unavailable before deployment"
  | .ok () =>
    match (← ask (.deploy ⟨step.service, run.environment.text, step.change.desiredVersion, key⟩) :
        Except String Deployment) with
    | .error message => return block executing index ("deploy failed: " ++ message)
    | .ok deployment => verifyStep executing succeeded index step key deployment

/-- The decision of the policy on a step, and what follows from it. -/
def evaluateStep (run : ReleaseRun) (succeeded : GoMap String Bool) (index : ℕ)
    (step : ReleaseStep) : Call Progress := do
  let decision : PolicyDecision ← ask (.evaluate (policyInput run step))
  let evaluated := setStep run index fun step => { step with policy := some decision }
  match (← audit evaluated "system" "policy-engine" "policy.evaluate" "release_step" step.service
      decision.decision.text (.object (Json.field "reason_code" (.text decision.reasonCode) ++
        Json.field "input_hash" (.text decision.inputHash)))) with
  | .error _ => return block evaluated index "audit unavailable before policy decision"
  | .ok () =>
    if decision.decision = .deny then return block evaluated index decision.reasonDetail
    else if decision.decision = .requireApproval ∧
        step.approval.map Approval.status ≠ some .approved then
      requestApproval evaluated index step decision
    else deployStep evaluated succeeded index step decision

def advanceStep (services : GoMap String Service) (selected succeeded : GoMap String Bool)
    (run : ReleaseRun) (index : ℕ) : Call Progress :=
  match run.steps[index]? with
  | none => return .goesOn run succeeded
  | some step =>
    if step.status ≠ .pending then return .goesOn run succeeded
    else
      match unmetDependency services step.service selected succeeded with
      | some dependency =>
        return block run index ("selected dependency did not succeed: " ++ dependency)
      | none => evaluateStep run succeeded index step

/-- The loop over the steps; the result is the run to be persisted. -/
def advanceSteps (services : GoMap String Service) (selected : GoMap String Bool) :
    List ℕ → ReleaseRun → GoMap String Bool → Call ReleaseRun
  | [], run, _ => return { run with status := .succeeded }
  | index :: rest, run, succeeded => do
      match (← advanceStep services selected succeeded run index) with
      | .stopped last => return last
      | .goesOn next later => advanceSteps services selected rest next later

def sortedServices (order : IterationOrder String) (planner : Planner) : List Service :=
  ((order.arrange 0 planner.services.keys).map fun name =>
    planner.services.find name ServiceDefinition.zero.service).insertionSort
      fun left right => left.name ≤ right.name

def servicesByName (services : List Service) : GoMap String Service :=
  services.foldl (fun table service => GoMap.set table service.name service) ∅

def validateRequest (request : ReleaseRequest) : Except EngineError Unit := do
  require (request.requestID ≠ "") (.invalidRequest "request_id is required")
  require (request.releaseVersion ≠ "") (.invalidRequest "release_version is required")
  require (request.requestedBy ≠ "") (.invalidRequest "requested_by is required")
  require (request.agent.id ≠ "") (.invalidRequest "delegated_agent.id is required")

/-- The run which `startPlanned` creates; it has no tenant and no workflow. -/
def newRun (runID : String) (now : Time) (request : ReleaseRequest) (plan : ReleasePlan) :
    ReleaseRun where
  id := runID
  requestID := request.requestID
  releaseVersion := request.releaseVersion
  environment := request.environment
  requestedBy := request.requestedBy
  tenantID := ""
  region := ""
  cluster := ""
  agent := request.agent
  plan
  status := .pending
  steps := Application.newSteps request plan
  stateVersion := 1
  workflowID := ""
  createdAt := now
  updatedAt := now

/-- The first step whose approval has the identifier. -/
def approvalIndex (run : ReleaseRun) (approvalID : String) : Option ℕ :=
  run.steps.findIdx? fun step => step.approval.any fun approval => approval.id = approvalID

def pendingApproval (run : ReleaseRun) (approvalID : String) : Option (ℕ × Approval) := do
  let index ← approvalIndex run approvalID
  let step ← run.steps[index]?
  let approval ← step.approval
  if approval.status = .pending then some (index, approval) else none

def expireApproval (run : ReleaseRun) (index : ℕ) : ReleaseRun :=
  { setStep run index (Workflow.Release.decideStep
      (fun approval => { approval with status := .expired }) .blocked) with
    status := .blocked }

def decideStep (run : ReleaseRun) (index : ℕ) (actor : String) (approve : Bool) (now : Time) :
    ReleaseRun :=
  let decided (status : ApprovalStatus) (approval : Approval) : Approval :=
    { approval with status, decidedBy := actor, decidedAt := some now }
  if approve then
    { setStep run index (Workflow.Release.decideStep (decided .approved) .pending) with
      status := .running
      updatedAt := now }
  else
    { setStep run index (fun step =>
        { Workflow.Release.decideStep (decided .denied) .blocked step with
          failure := "approval denied" }) with
      status := .blocked
      updatedAt := now }

def decisionText (approve : Bool) : String :=
  if approve then "APPROVED" else "DENIED"

def getRun (id : String) : Call ReleaseRun := do
  stored (← ask (.getRun id))

section Calls

variable (engine : Engine)

def plan (request : ReleaseRequest) : Call ReleasePlan := do
  returning false (validateRequest request)
  let order : IterationOrder String ← ask .iterationOrder
  let now : Time ← ask .now
  returning false ((engine.planner.planIntent engine.digest order now
    (intentFromLegacy request)).mapError .go)

def advance (run : ReleaseRun) : Call Unit := do
  let order : IterationOrder String ← ask .iterationOrder
  let services := servicesByName (sortedServices order engine.planner)
  let last ← advanceSteps services (selectedServices run) (List.range run.steps.length)
    { run with status := .running } (succeededServices run)
  persist last run.stateVersion

/-- Carry out a run which was created; its errors are returned together with the flag. -/
def startCreated (request : ReleaseRequest) (run : ReleaseRun) : Call (ReleaseRun × Bool) := do
  let audited ← audit run "user" request.requestedBy "release.start" "release_run" run.id "ACCEPTED"
    (.object (Json.field "plan_hash" (.text run.plan.hash)))
  returning true (audited.mapError fun error => .wrapped "write release audit event" (.store error))
  match (← ExceptT.lift (engine.advance run).run : Except Failure Unit) with
  | .error failure => throw { failure with created := true }
  | .ok () =>
    let updated : Except StoreError ReleaseRun ← ask (.getRun run.id)
    return (← returning true (updated.mapError .store), true)

def startPlanned (request : ReleaseRequest) (plan : ReleasePlan) :
    Call (ReleaseRun × Bool) := do
  let validatedAt : Time ← ask .now
  let validated := engine.planner.validatePlan engine.digest plan validatedAt
  returning false (validated.mapError fun error =>
    .wrapped "validate release plan before execution" (.go error))
  let now : Time ← ask .now
  let runID : String ← ask (.newID "run")
  let run := newRun runID now request plan
  let (createdRun, created) ← stored (← ask (.createRun run))
  if created then engine.startCreated request run else return (createdRun, false)

def start (request : ReleaseRequest) : Call (ReleaseRun × Bool) := do
  let plan ← engine.plan request
  engine.startPlanned request plan

def decideApproval (runID approvalID actor : String) (roles : List String) (approve : Bool) :
    Call ReleaseRun := do
  let run ← getRun runID
  returning false (require (actor ≠ "") (.approval "approval actor is required"))
  match pendingApproval run approvalID with
  | none => throw { error := .approval "pending approval not found" }
  | some (index, approval) =>
    returning false (require (approval.planHash = run.plan.hash)
      (.approval "plan changed after approval request"))
    let checkedAt : Time ← ask .now
    if ¬checkedAt < approval.expiresAt then
      persist (expireApproval run index) run.stateVersion
      getRun runID
    else
      returning false (require (¬(approve ∧ ¬containsAll roles approval.requiredRoles))
        (.approval ("approver lacks required roles " ++ GoText.showSlice approval.requiredRoles)))
      returning false (require (¬(approve ∧ actor = run.requestedBy))
        (.approval "requester cannot approve their own release"))
      let now : Time ← ask .now
      let decided := decideStep run index actor approve now
      let audited ← audit decided "user" actor "approval.decide" "approval" approvalID
        (decisionText approve) .null
      returning false
        (audited.mapError fun error => .wrapped "write approval audit event" (.store error))
      stored (← ask (.updateRun decided run.stateVersion))
      if approve then
        let current ← getRun runID
        engine.advance current
      getRun runID

def cancel (runID actor : String) : Call ReleaseRun := do
  let run ← getRun runID
  if run.status = .succeeded ∨ run.status = .cancelled then return run
  else
    let updatedAt : Time ← ask .now
    let cancelled :=
      { cancelSteps [.pending, .waitingApproval] 0 run with
        status := .cancelled
        updatedAt }
    let audited ←
      audit cancelled "user" actor "release.cancel" "release_run" run.id "CANCELLED" .null
    returning false
      (audited.mapError fun error => .wrapped "write cancellation audit event" (.store error))
    stored (← ask (.updateRun cancelled run.stateVersion))
    getRun runID

/-- The actor of a pause is not recorded. -/
def pause (runID _actor : String) : Call ReleaseRun := do
  let run ← getRun runID
  if run.status ≠ .running ∧ run.status ≠ .waitingApproval then return run
  else
    persist { run with pausedFrom := some run.status, status := .paused } run.stateVersion
    getRun runID

/-- The actor of a resumption is not recorded. -/
def resume (runID _actor : String) : Call ReleaseRun := do
  let run ← getRun runID
  if run.status ≠ .paused then return run
  else if run.pausedFrom = some .waitingApproval then
    persist { run with pausedFrom := none, status := .waitingApproval } run.stateVersion
    getRun runID
  else
    engine.advance { run with pausedFrom := none, status := .running }
    getRun runID

end Calls

/-- The calls of the engine which change runs. -/
inductive Operation where
  | start (request : ReleaseRequest)
  | decideApproval (runID approvalID actor : String) (roles : List String) (approve : Bool)
  | cancel (runID actor : String)
  | pause (runID actor : String)
  | resume (runID actor : String)

def Operation.program (engine : Engine) : Operation → Call Unit
  | start request => do let _ ← engine.start request
  | decideApproval runID approvalID actor roles approve => do
      let _ ← engine.decideApproval runID approvalID actor roles approve
  | cancel runID actor => do let _ ← Engine.cancel runID actor
  | pause runID actor => do let _ ← Engine.pause runID actor
  | resume runID actor => do let _ ← engine.resume runID actor

end Engine

end Themisy
