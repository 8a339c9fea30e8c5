import Themisy.Workflow.Activities
import Themisy.Workflow.AssignWaves

/-!
# The release workflow

This file embeds `internal/workflow/release.go`: `ReleaseWorkflow` with its waits for
approval and for resumption. Its requests are the activities, the clock, sleeping, and
the receptions from the signal channels; `Selector.Select` is one request, answered
with the chosen case. Every activity may fail. Leaving the workflow early is an
exception, which carries what the workflow returns.

The two waits are loops without a bound. The pointer `step` of the source is the index
into the steps of the current run. The query handler is left out.
-/

namespace Themisy.Workflow

open Domain Interaction

/-- A decision on an approval, as it is signalled. -/
structure ApprovalSignal where
  approvalID : String := ""
  actor : String := ""
  roles : List String := []
  approve : Bool := false
  action : String := ""
  deriving DecidableEq

/-- The action of a signal, which older clients send as a flag. -/
def ApprovalSignal.effectiveAction (signal : ApprovalSignal) : String :=
  if signal.action = "" then (if signal.approve then "approve" else "deny") else signal.action

structure ControlSignal where
  actor : String := ""
  reason : String := ""
  deriving DecidableEq

/-- The case which the selector of the approval wait has chosen. -/
inductive ApprovalEvent where
  | approval (signal : ApprovalSignal)
  | pause (signal : ControlSignal)
  | cancel (signal : ControlSignal)
  | expired
  deriving DecidableEq

namespace ApprovalEvent

/-- The variable `signal` after the selection. -/
def signal : ApprovalEvent → ApprovalSignal
  | approval signal => signal
  | _ => {}

/-- The variable `pause` after the selection. -/
def pauseSignal : ApprovalEvent → ControlSignal
  | pause signal => signal
  | _ => {}

/-- The variable `cancel` after the selection. -/
def cancelSignal : ApprovalEvent → ControlSignal
  | cancel signal => signal
  | _ => {}

end ApprovalEvent

/-- The case which the selector of a paused run has chosen. -/
inductive ResumeEvent where
  | resume (signal : ControlSignal)
  | cancel (signal : ControlSignal)
  deriving DecidableEq

structure ScheduleResult where
  allowed : Bool := false
  reason : String := ""
  blockedBy : List Scheduler.Blocked := []
  deriving DecidableEq

/-- The evidence of an adapter, which also carries a status and a reason code. -/
structure AdapterEvidence where
  status : VerificationStatus
  reasonCode : String
  evidence : Evidence
  deriving DecidableEq, Inhabited

/-- The answer of the activity `Verify`. -/
structure VerificationResult where
  status : VerificationStatus
  healthy : Bool
  reason : String
  observedValue : Float64
  threshold : Float64
  evidence : AdapterEvidence
  deriving DecidableEq, Inhabited

def VerificationResult.outcome (result : VerificationResult) : VerificationStatus :=
  if result.status.valid then result.status
  else if result.healthy then .pass
  else .fail

/-- The error of an activity as the workflow sees it. -/
structure ActivityFailure where
  text : String
  deriving DecidableEq

inductive WorkflowError where
  | activity (failure : ActivityFailure)
  | waves (error : GoError)
  /-- A nil pointer or an index out of range. -/
  | panic
  deriving DecidableEq

namespace Release

/-- What the workflow asks of its environment. -/
inductive Op where
  | now
  | persistRun (input : PersistInput)
  | evaluateStep (run : ReleaseRun) (step : ReleaseStep)
  | acquireSchedule (runID : String) (step : Scheduler.Step)
  | completeSchedule (runID stepID : String) (failed : Bool)
  | deploy (input : DeployInput)
  | verify (deployment : Deployment)
  | rollback (input : RollbackInput)
  | sleep (duration : ℤ)
  | receiveCancel
  | receivePause
  | selectApproval (timeout : ℤ)
  | selectResume

abbrev Op.Res : Op → Type
  | now => Time
  | persistRun _ => Except ActivityFailure ReleaseRun
  | evaluateStep _ _ => Except ActivityFailure PolicyDecision
  | acquireSchedule _ _ => Except ActivityFailure ScheduleResult
  | completeSchedule _ _ _ => Except ActivityFailure Unit
  | deploy _ => Except ActivityFailure DeployResult
  | verify _ => Except ActivityFailure VerificationResult
  | rollback _ => Except ActivityFailure RollbackResult
  | sleep _ => Except ActivityFailure Unit
  | receiveCancel => Bool
  | receivePause => Bool
  | selectApproval _ => ApprovalEvent
  | selectResume => ResumeEvent

abbrev requests : Sig := ⟨Op, Op.Res⟩

/-- Answered requests. -/
abbrev History := List (Event requests)

/-- What the workflow returns. The run which accompanies an error is dropped by Temporal. -/
abbrev Exit := Except WorkflowError ReleaseRun

/-- Statements of the workflow, which may leave it. -/
abbrev Call (α : Type) := ExceptT Exit (Prog requests) α

def ask (op : Op) : Call op.Res :=
  ExceptT.lift (Prog.perform (S := requests) op)

/-- The value of an activity, whose error is returned by the workflow. -/
def succeed {α : Type} : Except ActivityFailure α → Call α
  | .ok value => pure value
  | .error failure => throw (.error (.activity failure))

/-- The statement `return run, nil`. -/
def leave {α : Type} (run : ReleaseRun) : Call α :=
  throw (.ok run)

def stepAt (run : ReleaseRun) (index : ℕ) : Call ReleaseStep :=
  match run.steps[index]? with
  | some step => pure step
  | none => throw (.error .panic)

def approvalAt (run : ReleaseRun) (index : ℕ) : Call Approval := do
  let step ← stepAt run index
  match step.approval with
  | some approval => pure approval
  | none => throw (.error .panic)

def setStep (run : ReleaseRun) (index : ℕ) (change : ReleaseStep → ReleaseStep) : ReleaseRun :=
  { run with steps := run.steps.modify index change }

def decideStep (change : Approval → Approval) (status : StepStatus) (step : ReleaseStep) :
    ReleaseStep :=
  { step with approval := step.approval.map change, status }

def cancelStep (statuses : List StepStatus) (step : ReleaseStep) : ReleaseStep :=
  if step.status ∈ statuses then { step with status := .cancelled } else step

/-- Cancel the steps from an index on whose status is listed. -/
def cancelSteps (statuses : List StepStatus) (first : ℕ) (run : ReleaseRun) : ReleaseRun :=
  { run with
    steps := run.steps.take first ++ (run.steps.drop first).map (cancelStep statuses) }

def cancelDownstream (first : ℕ) (run : ReleaseRun) : ReleaseRun :=
  cancelSteps [.pending] first run

def failStep (run : ReleaseRun) (index : ℕ) (status : StepStatus) (failure : String)
    (runStatus : RunStatus) : ReleaseRun :=
  { setStep run index fun step => { step with status, failure } with status := runStatus }

def selectedServices (run : ReleaseRun) : GoMap String Bool :=
  textSet (run.steps.map ReleaseStep.service)

def succeededServices (run : ReleaseRun) : GoMap String Bool :=
  textSet ((run.steps.filter fun step => step.status = .succeeded).map ReleaseStep.service)

def unmetDependency (plan : ReleasePlan) (service : String)
    (selected succeeded : GoMap String Bool) : Option String :=
  ((plan.steps.filter fun step => step.service = service).flatMap
    PlanStep.orderingDependencies).find? fun dependency =>
      selected.find dependency false ∧ ¬succeeded.find dependency false

def containsAll (actual required : List String) : Bool :=
  let set := textSet actual
  required.all fun value => set.find value false

/-- `deterministicID("approval", run, service)`; the hash is that of a text. -/
def approvalID (digest : Digest) (runID service : String) : String :=
  "approval_" ++ String.ofList ((digest.hex (.text (runID ++ "\x00" ++ service))).toList.take 24)

def deployInput (run : ReleaseRun) (step : ReleaseStep) : DeployInput where
  runID := run.id
  requestedBy := run.requestedBy
  agentID := run.agent.id
  service := step.service
  environment := run.environment.text
  desiredVersion := step.change.desiredVersion
  idempotencyKey := run.id ++ "/" ++ run.environment.text ++ "/" ++ step.service ++ "/" ++
    step.change.desiredVersion

def second : ℤ := 1000000000

def approvalLifetime : ℤ := 24 * 3600 * second

def observationDuration (value : String) : ℤ :=
  match GoText.parseDuration value with
  | .ok duration => if duration ≤ 0 then second else duration
  | .error _ => second

def verificationProjection (result : VerificationResult) (checkedAt : Time) : Verification where
  status := result.outcome
  healthy := result.outcome = .pass
  reason := result.reason
  observedValue := result.observedValue
  threshold := result.threshold
  checkedAt
  evidence := result.evidence.evidence

def evidenceDetails (evidence : AdapterEvidence) : Json :=
  .object (
    Json.field "status" (.text evidence.status.text) ++
    Json.field "reason_code" (.text evidence.reasonCode) ++
    Json.field "source" (.text evidence.evidence.source) ++
    Json.field "query_hash" (.text evidence.evidence.queryHash) ++
    Json.field "window_from" (.time evidence.evidence.windowFrom 0) ++
    Json.field "window_to" (.time evidence.evidence.windowTo 0) ++
    Json.field "observed_at" (.time evidence.evidence.observedAt 0) ++
    Json.field "observed_value" (.float evidence.evidence.observedValue) ++
    Json.field "threshold" (.float evidence.evidence.threshold) ++
    Json.field "adapter_version" (.text evidence.evidence.adapterVersion) ++
    Json.field "evidence_hash" (.text evidence.evidence.evidenceHash))

def blockedDetails (result : ScheduleResult) : Json :=
  .object (Json.field "reason" (.text result.reason) ++
    Json.field "budget" (Json.ofSlice (fun blocked : Scheduler.Blocked => .object (
      Json.field "dimension" (.text blocked.dimension.text) ++
      Json.field "key" (.text blocked.key) ++
      Json.field "limit" (.number blocked.limit))) result.blockedBy))

def persist (run : ReleaseRun) (audits : List AuditIntent) (eventType : String) :
    Call ReleaseRun := do
  succeed (← ask (.persistRun ⟨run, audits, eventType⟩))

def persistNow (run : ReleaseRun) (audits : List AuditIntent) (eventType : String) :
    Call ReleaseRun := do
  let updatedAt : Time ← ask .now
  persist { run with updatedAt } audits eventType

/-- The statement `return persist(...)` after setting the current time. -/
def finish {α : Type} (run : ReleaseRun) (audits : List AuditIntent) (eventType : String) :
    Call α := do
  leave (← persistNow run audits eventType)

def completeScheduling (runID stepID : String) (failed : Bool) : Call Unit := do
  succeed (← ask (.completeSchedule runID stepID failed))

def sleep (duration : ℤ) : Call Unit := do
  succeed (← ask (.sleep duration))

def cancelRun (run : ReleaseRun) (first : ℕ) (actor : String) : Call ReleaseRun :=
  persistNow { cancelSteps [.pending, .waitingApproval] first run with status := .cancelled }
    [{ actorType := "user"
       actorID := actor
       action := "release.cancel"
       resourceType := "release_run"
       resourceID := run.id
       result := "CANCELLED" }] "release.cancelled"

def resumeOrCancel (index : ℕ) (run : ReleaseRun) : ResumeEvent → Call (ReleaseRun ⊕ ReleaseRun)
  | .cancel signal => do
      if signal.actor ≠ "" then return .inr (← cancelRun run index signal.actor)
      else return .inl run
  | .resume signal => do
      if signal.actor ≠ "" then
        return .inr (← persistNow
          { run with status := run.pausedFrom.getD .running, pausedFrom := none } []
          "release.resumed")
      else return .inl run

def waitForResume (run : ReleaseRun) (index : ℕ) : Call ReleaseRun := do
  let paused ← persistNow { run with pausedFrom := some run.status, status := .paused } []
    "release.paused"
  Prog.repeatUntil (S := requests) (fun _ => Op.selectResume) (resumeOrCancel index) paused

/-- The signals which the approval wait does not ignore. -/
def Accepted (requestedBy : String) (approval : Approval) (signal : ApprovalSignal) : Prop :=
  signal.approvalID = approval.id ∧ signal.actor ≠ "" ∧
    ¬(signal.effectiveAction = "approve" ∧ signal.actor = requestedBy) ∧
    ¬((signal.effectiveAction = "approve" ∨
        signal.effectiveAction = "revoke") ∧
      ¬containsAll signal.roles approval.requiredRoles = true)

instance (requestedBy : String) (approval : Approval) (signal : ApprovalSignal) :
    Decidable (Accepted requestedBy approval signal) :=
  inferInstanceAs (Decidable (_ ∧ _))

def decisionAudit (signal : ApprovalSignal) (action result : String) : AuditIntent where
  actorType := "user"
  actorID := signal.actor
  action
  resourceType := "approval"
  resourceID := signal.approvalID
  result

def decidedApproval (signal : ApprovalSignal) (decidedAt : Time) (status : ApprovalStatus)
    (approval : Approval) : Approval :=
  { approval with status, decidedBy := signal.actor, decidedAt := some decidedAt }

def blockRun (run : ReleaseRun) (index : ℕ) (change : Approval → Approval) : ReleaseRun :=
  cancelDownstream (index + 1)
    { setStep run index (decideStep change .blocked) with status := .blocked }

/-- Carry out the decision of an accepted signal. -/
def decideApproval (run : ReleaseRun) (index : ℕ) (signal : ApprovalSignal) : Call ReleaseRun := do
  let decidedAt : Time ← ask .now
  if signal.effectiveAction = "revoke" then
    persist { blockRun run index (decidedApproval signal decidedAt .revoked) with
        updatedAt := decidedAt }
      [decisionAudit signal "approval.revoke" "REVOKED"] "approval.revoked"
  else if signal.effectiveAction ≠ "approve" then
    persist { blockRun run index (decidedApproval signal decidedAt .denied) with
        updatedAt := decidedAt }
      [decisionAudit signal "approval.decide" "DENIED"] "approval.denied"
  else
    persist { setStep run index
          (decideStep (decidedApproval signal decidedAt .approved) .pending) with
        status := .running
        updatedAt := decidedAt }
      [decisionAudit signal "approval.decide" "APPROVED"] "approval.approved"

/-- One iteration of the approval wait, after reading the clock for its timer. -/
def awaitDecision (index : ℕ) (run : ReleaseRun) (now : Time) :
    Call (ReleaseRun ⊕ ReleaseRun) := do
  let approval ← approvalAt run index
  let event : ApprovalEvent ← ask (.selectApproval (approval.expiresAt - now))
  if event.cancelSignal.actor ≠ "" then
    return .inr (← cancelRun run index event.cancelSignal.actor)
  else if event.pauseSignal.actor ≠ "" then
    let resumed ← waitForResume run index
    return if resumed.status = .cancelled then .inr resumed else .inl resumed
  else if event = .expired then
    return .inr (← persistNow
      (blockRun run index fun approval => { approval with status := .expired }) []
      "approval.expired")
  else if Accepted run.requestedBy approval event.signal then
    return .inr (← decideApproval run index event.signal)
  else return .inl run

def newApproval (digest : Digest) (run : ReleaseRun) (step : ReleaseStep)
    (decision : PolicyDecision) (now : Time) : Approval where
  id := approvalID digest run.id step.service
  requiredRoles := decision.requiredRoles
  status := .pending
  planHash := run.plan.hash
  requestedAt := now
  expiresAt := now + approvalLifetime

def awaitApproval (digest : Digest) (run : ReleaseRun) (index : ℕ) (decision : PolicyDecision) :
    Call ReleaseRun := do
  let now : Time ← ask .now
  let step ← stepAt run index
  let approval := newApproval digest run step decision now
  let waiting ← persist { setStep run index fun step =>
        { step with approval := some approval, status := .waitingApproval } with
      status := .waitingApproval
      updatedAt := now }
    [{ actorType := "system"
       actorID := "policy-engine"
       action := "approval.request"
       resourceType := "approval"
       resourceID := approval.id
       result := "PENDING" }] "approval.requested"
  Prog.repeatUntil (S := requests) (fun _ => Op.now) (awaitDecision index) waiting

/-- Honour a cancel signal or a pause signal which has arrived. -/
def pollSignals (run : ReleaseRun) (index : ℕ) : Call ReleaseRun := do
  let cancelled : Bool ← ask .receiveCancel
  if cancelled then leave (← cancelRun run index "signal")
  else
    let paused : Bool ← ask .receivePause
    if paused then
      let resumed ← waitForResume run index
      if resumed.status = .cancelled then leave resumed else return resumed
    else return run

def checkDependencies (selected succeeded : GoMap String Bool) (run : ReleaseRun) (index : ℕ)
    (step : ReleaseStep) : Call Unit :=
  match unmetDependency run.plan step.service selected succeeded with
  | none => pure ()
  | some unmet =>
    finish (cancelDownstream (index + 1) (failStep run index .blocked
        ("selected dependency did not succeed: " ++ unmet) .blocked))
      [{ actorType := "system"
         actorID := "temporal"
         action := "dependency.block"
         resourceType := "service"
         resourceID := step.service
         result := "BLOCKED" }] "release.blocked"

/-- Ask the policy engine; the release stops when it denies the step. -/
def evaluatePolicy (run : ReleaseRun) (index : ℕ) (step : ReleaseStep) :
    Call (ReleaseRun × PolicyDecision) := do
  let decision ← succeed (← ask (.evaluateStep run step))
  let evaluated ← persistNow
    (setStep run index fun step => { step with policy := some decision })
    [{ actorType := "system"
       actorID := "policy-engine"
       action := "policy.evaluate"
       resourceType := "release_step"
       resourceID := step.service
       result := decision.decision.text
       details := .object (Json.field "reason_code" (.text decision.reasonCode) ++
         Json.field "input_hash" (.text decision.inputHash)) }] "policy.evaluated"
  if decision.decision = .deny then
    finish (cancelDownstream (index + 1)
      (failStep evaluated index .blocked decision.reasonDetail .blocked)) [] "release.blocked"
  else return (evaluated, decision)

def obtainApproval (digest : Digest) (run : ReleaseRun) (index : ℕ) (decision : PolicyDecision) :
    Call ReleaseRun := do
  if decision.decision = .requireApproval then
    let approved ← awaitApproval digest run index decision
    if approved.status ≠ .running then leave approved else return approved
  else return run

def acquireSchedule (run : ReleaseRun) (index : ℕ) : Call Unit := do
  let step ← stepAt run index
  let result ← succeed (← ask (.acquireSchedule run.id (schedulingStep run step)))
  if result.allowed then return ()
  else
    finish (cancelDownstream (index + 1) (failStep run index .blocked
        ("dispatch backpressured: " ++ result.reason) .blocked))
      [{ actorType := "system"
         actorID := "scheduler"
         action := "dispatch.block"
         resourceType := "release_step"
         resourceID := step.service
         result := "BLOCKED"
         details := blockedDetails result }] "dispatch.backpressured"

def deployStep (run : ReleaseRun) (index : ℕ) : Call (ReleaseRun × DeployInput × DeployResult) := do
  let executing ← persistNow (setStep run index fun step => { step with status := .executing }) []
    "deployment.executing"
  let step ← stepAt executing index
  let input := deployInput executing step
  match (← ask (.deploy input) : Except ActivityFailure DeployResult) with
  | .error _ =>
    completeScheduling executing.id step.service true
    finish (cancelDownstream (index + 1) (failStep executing index .unknown
      "deployment state unknown; reconciliation required" .blocked)) [] "deployment.unknown"
  | .ok deployed =>
    return (setStep executing index fun step =>
      { step with execution := some deployed.execution }, input, deployed)

/-- Roll the step back and verify the rollback; the result has the statuses of the outcome. -/
def performRollback (run : ReleaseRun) (index : ℕ) (step : ReleaseStep) (input : RollbackInput)
    (reason : String) : Call ReleaseRun := do
  match (← ask (.rollback input) : Except ActivityFailure RollbackResult) with
  | .error failure =>
    return failStep run index .escalated ("rollback failed or unknown: " ++ failure.text)
      .escalated
  | .ok rolledBack =>
    let recorded := setStep run index fun step =>
      { step with rollbackExecution := some rolledBack.execution }
    sleep (observationDuration step.observationWindow)
    match (← ask (.verify rolledBack.deployment) : Except ActivityFailure VerificationResult) with
    | .error failure =>
      return failStep recorded index .escalated
        ("rollback verification unavailable: " ++ failure.text) .escalated
    | .ok result =>
      let checkedAt : Time ← ask .now
      let verified := setStep recorded index fun step =>
        { step with rollbackVerification := some (verificationProjection result checkedAt) }
      if result.outcome ≠ .pass then
        return failStep verified index .escalated
          ("rollback verification did not pass: " ++ result.outcome.text) .escalated
      else return failStep verified index .rolledBack reason .failed

def rollbackStep {α : Type} (run : ReleaseRun) (index : ℕ) (input : DeployInput)
    (deployed : DeployResult) (verification : VerificationResult) : Call α := do
  let rolling ← persistNow (setStep run index fun step => { step with status := .rollingBack }) []
    "rollback.started"
  let step ← stepAt rolling index
  let rolled ← performRollback rolling index step ⟨input, deployed.deployment⟩ verification.reason
  completeScheduling rolled.id step.service true
  finish (cancelDownstream (index + 1) rolled) [] "rollback.finished"

def verifyStep (run : ReleaseRun) (index : ℕ) (input : DeployInput) (deployed : DeployResult) :
    Call ReleaseRun := do
  let verifying ← persistNow (setStep run index fun step => { step with status := .verifying }) []
    "deployment.started"
  let step ← stepAt verifying index
  sleep (observationDuration step.observationWindow)
  match (← ask (.verify deployed.deployment) : Except ActivityFailure VerificationResult) with
  | .error failure =>
    completeScheduling verifying.id step.service true
    finish (cancelDownstream (index + 1) (failStep verifying index .blocked
      ("verification unavailable: " ++ failure.text) .blocked)) [] "verification.unavailable"
  | .ok result =>
    let checkedAt : Time ← ask .now
    let verified := setStep verifying index fun step =>
      { step with verification := some (verificationProjection result checkedAt) }
    let audit : AuditIntent :=
      { actorType := "system"
        actorID := "verifier"
        action := "deployment.verify"
        resourceType := "service"
        resourceID := step.service
        result := if result.outcome = .pass then "SUCCEEDED" else result.outcome.text
        details := evidenceDetails result.evidence }
    if result.outcome = .pass then
      completeScheduling verified.id step.service false
      persistNow (setStep verified index fun step => { step with status := .succeeded }) [audit]
        "step.succeeded"
    else if step.rollbackMode ≠ .automatic then
      completeScheduling verified.id step.service true
      finish (cancelDownstream (index + 1) (failStep verified index .escalated
        ("verification " ++ result.outcome.text ++ "; automatic rollback is not authorized: " ++
          step.rollbackMode.text) .escalated)) [audit] "release.escalated"
    else rollbackStep verified index input deployed result

def completeStep (run : ReleaseRun) (index : ℕ) (input : DeployInput) (deployed : DeployResult) :
    Call ReleaseRun := do
  let step ← stepAt run index
  if step.verificationRequired then verifyStep run index input deployed
  else
    completeScheduling run.id step.service false
    persistNow (setStep run index fun step => { step with status := .succeeded }) []
      "step.succeeded"

/-- One iteration over the steps; the result is the run and the services which have succeeded. -/
def runStep (digest : Digest) (selected succeeded : GoMap String Bool) (run : ReleaseRun)
    (index : ℕ) : Call (ReleaseRun × GoMap String Bool) := do
  let polled ← pollSignals run index
  let step ← stepAt polled index
  if step.status = .succeeded then return (polled, succeeded)
  checkDependencies selected succeeded polled index step
  let (evaluated, decision) ← evaluatePolicy polled index step
  let approved ← obtainApproval digest evaluated index decision
  acquireSchedule approved index
  let (deployed, input, result) ← deployStep approved index
  let completed ← completeStep deployed index input result
  return (completed, succeeded.set step.service true)

def runSteps (digest : Digest) (selected : GoMap String Bool) :
    List ℕ → ReleaseRun → GoMap String Bool → Call ReleaseRun
  | [], run, _ => pure run
  | index :: rest, run, succeeded => do
      let (next, later) ← runStep digest selected succeeded run index
      runSteps digest selected rest next later

def releaseStatements (digest : Digest) (order : StepOrder) (input : ReleaseRun) :
    Call ReleaseRun := do
  let started ← persistNow { input with status := .running }
    [{ actorType := "system"
       actorID := "temporal"
       action := "release.workflow.start"
       resourceType := "release_run"
       resourceID := input.id
       result := "RUNNING" }] "release.workflow.started"
  match assignWaves order started with
  | .error error => throw (.error (.waves error))
  | .ok waved =>
    let run ← runSteps digest (selectedServices started) (List.range waved.steps.length) waved
      (succeededServices started)
    persistNow { run with status := .succeeded }
      [{ actorType := "system"
         actorID := "temporal"
         action := "release.workflow.complete"
         resourceType := "release_run"
         resourceID := run.id
         result := "SUCCEEDED" }] "release.succeeded"

/-- The workflow; leaving it early and reaching its end are both returns. -/
def releaseWorkflow (digest : Digest) (order : StepOrder) (input : ReleaseRun) :
    Prog requests Exit := do
  match (← releaseStatements digest order input : Except Exit ReleaseRun) with
  | .ok run => return .ok run
  | .error exit => return exit

end Release

end Themisy.Workflow
