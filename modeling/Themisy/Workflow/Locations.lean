import Themisy.Workflow.Legal

/-!
# The release workflow as a state machine

The release workflow, seen from one request to the next. A location is a point at
which the workflow waits for an answer; `Moves` are its transitions. Most locations
are about to persist the run and carry the goal which the workflow has with it.

The machine leaves open which selected dependency is unmet when a release is blocked,
and with which audits a run is persisted. In everything else it is as the workflow:
`releaseWorkflow_follows` shows that every execution is a path of the machine.
-/

namespace Themisy.Workflow.Release

open Domain Interaction

def cancelledRun (run : ReleaseRun) (index : ℕ) : ReleaseRun :=
  { cancelSteps [.pending, .waitingApproval] index run with status := .cancelled }

def pausedRun (run : ReleaseRun) : ReleaseRun :=
  { run with pausedFrom := some run.status, status := .paused }

def resumedRun (run : ReleaseRun) : ReleaseRun :=
  { run with status := run.pausedFrom.getD .running, pausedFrom := none }

/-- The run of a release which stops at a step. -/
def stoppedRun (run : ReleaseRun) (index : ℕ) (status : StepStatus) (failure : String)
    (runStatus : RunStatus) : ReleaseRun :=
  cancelDownstream (index + 1) (failStep run index status failure runStatus)

def awaitingRun (run : ReleaseRun) (index : ℕ) (approval : Approval) (now : Time) : ReleaseRun :=
  { setStep run index fun step =>
      { step with approval := some approval, status := .waitingApproval } with
    status := .waitingApproval
    updatedAt := now }

def approvedRun (run : ReleaseRun) (index : ℕ) (signal : ApprovalSignal) (decidedAt : Time) :
    ReleaseRun :=
  { setStep run index (decideStep (decidedApproval signal decidedAt .approved) .pending) with
    status := .running
    updatedAt := decidedAt }

/-- What the workflow records in a step besides its status and its approval. -/
inductive Record where
  | policy (decision : PolicyDecision)
  | execution (made : Execution)
  | verification (result : Verification)
  | rollbackExecution (made : Execution)
  | rollbackVerification (result : Verification)

def Record.write : Record → ReleaseStep → ReleaseStep
  | policy decision, step => { step with policy := some decision }
  | execution made, step => { step with execution := some made }
  | verification result, step => { step with verification := some result }
  | rollbackExecution made, step => { step with rollbackExecution := some made }
  | rollbackVerification result, step => { step with rollbackVerification := some result }

def recordedRun (run : ReleaseRun) (index : ℕ) (record : Record) : ReleaseRun :=
  setStep run index record.write

def markedRun (run : ReleaseRun) (index : ℕ) (status : StepStatus) : ReleaseRun :=
  setStep run index fun step => { step with status }

abbrev executedRun (run : ReleaseRun) (index : ℕ) (execution : Execution) : ReleaseRun :=
  recordedRun run index (.execution execution)

abbrev verifiedRun (run : ReleaseRun) (index : ℕ) (result : VerificationResult)
    (checkedAt : Time) : ReleaseRun :=
  recordedRun run index (.verification (verificationProjection result checkedAt))

abbrev rollbackVerifiedRun (run : ReleaseRun) (index : ℕ) (result : VerificationResult)
    (checkedAt : Time) : ReleaseRun :=
  recordedRun run index (.rollbackVerification (verificationProjection result checkedAt))

/-- Where a run is paused: before a step, or while it waits for an approval. -/
inductive Wait where
  | poll
  | approval
  deriving DecidableEq

/-- What the workflow does with a run which it persists. -/
inductive Goal where
  | begin
  | pause (wait : Wait) (index : ℕ)
  | resume (wait : Wait) (index : ℕ)
  | evaluate (index : ℕ) (decision : PolicyDecision)
  | await (index : ℕ)
  | approve (index : ℕ)
  | execute (index : ℕ)
  | verify (index : ℕ) (input : DeployInput) (deployed : DeployResult)
  | rollback (index : ℕ) (input : RollbackInput) (reason : String)
  | succeed (index : ℕ)
  | finish

/-- The step which the workflow reads from the persisted run. -/
def Goal.index : Goal → Option ℕ
  | resume _ index | evaluate index _ | await index | approve index | execute index
  | verify index _ _ | rollback index _ _ => some index
  | _ => none

/-- Where the workflow is when it makes its next request. -/
inductive Location where
  /-- Reading the clock before the run is persisted. -/
  | stamp (goal : Goal) (run : ReleaseRun)
  | store (goal : Goal) (run : ReleaseRun)
  | poll (index : ℕ) (run : ReleaseRun)
  | pollPause (index : ℕ) (run : ReleaseRun)
  | paused (wait : Wait) (index : ℕ) (run : ReleaseRun)
  | evaluating (index : ℕ) (run : ReleaseRun) (step : ReleaseStep)
  /-- Reading the clock for a new approval. -/
  | requesting (index : ℕ) (run : ReleaseRun) (decision : PolicyDecision)
  /-- Reading the clock for the timer of the approval. -/
  | waiting (index : ℕ) (run : ReleaseRun)
  | selecting (index : ℕ) (run : ReleaseRun) (approval : Approval) (now : Time)
  /-- Reading the clock for the decision of a signal. -/
  | deciding (index : ℕ) (run : ReleaseRun) (signal : ApprovalSignal)
  | acquiring (index : ℕ) (run : ReleaseRun) (step : ReleaseStep)
  | deploying (index : ℕ) (run : ReleaseRun) (step : ReleaseStep)
  /-- Completing the schedule of a service before the run is persisted. -/
  | completing (goal : Goal) (run : ReleaseRun) (service : String) (failed : Bool)
  | observing (index : ℕ) (run : ReleaseRun) (step : ReleaseStep) (input : DeployInput)
      (deployed : DeployResult)
  | verifying (index : ℕ) (run : ReleaseRun) (step : ReleaseStep) (input : DeployInput)
      (deployed : DeployResult)
  /-- Reading the clock after a verification. -/
  | checking (index : ℕ) (run : ReleaseRun) (step : ReleaseStep) (input : DeployInput)
      (deployed : DeployResult) (result : VerificationResult)
  | rollingBack (index : ℕ) (run : ReleaseRun) (step : ReleaseStep) (input : RollbackInput)
      (reason : String)
  | rollbackObserving (index : ℕ) (run : ReleaseRun) (step : ReleaseStep) (deployment : Deployment)
      (reason : String)
  | rollbackVerifying (index : ℕ) (run : ReleaseRun) (step : ReleaseStep) (deployment : Deployment)
      (reason : String)
  /-- Reading the clock after the verification of a rollback. -/
  | rollbackChecking (index : ℕ) (run : ReleaseRun) (step : ReleaseStep)
      (result : VerificationResult) (reason : String)
  | finished (exit : Exit)

def Location.isFinished : Location → Bool
  | finished _ => true
  | _ => false

/-- The requests which the workflow may make at a location. -/
def Location.Asks : Location → Op → Prop
  | stamp _ _, op => op = .now
  | store _ run, op => ∃ audits eventType, op = .persistRun ⟨run, audits, eventType⟩
  | poll _ _, op => op = .receiveCancel
  | pollPause _ _, op => op = .receivePause
  | paused _ _ _, op => op = .selectResume
  | evaluating _ run step, op => op = .evaluateStep run step
  | requesting _ _ _, op => op = .now
  | waiting _ _, op => op = .now
  | selecting _ _ approval now, op => op = .selectApproval (approval.expiresAt - now)
  | deciding _ _ _, op => op = .now
  | acquiring _ run step, op => op = .acquireSchedule run.id (schedulingStep run step)
  | deploying _ run step, op => op = .deploy (deployInput run step)
  | completing _ run service failed, op => op = .completeSchedule run.id service failed
  | observing _ _ step _ _, op => op = .sleep (observationDuration step.observationWindow)
  | verifying _ _ _ _ deployed, op => op = .verify deployed.deployment
  | checking _ _ _ _ _ _, op => op = .now
  | rollingBack _ _ _ input _, op => op = .rollback input
  | rollbackObserving _ _ step _ _, op => op = .sleep (observationDuration step.observationWindow)
  | rollbackVerifying _ _ _ deployment _, op => op = .verify deployment
  | rollbackChecking _ _ _ _ _, op => op = .now
  | finished _, _ => False

/-- The location of the loop over the steps. -/
def enter (total index : ℕ) (run : ReleaseRun) : Location :=
  if index < total then .poll index run
  else .stamp .finish { run with status := .succeeded }

/-- Where a step begins when neither a cancel nor a pause signal has arrived. -/
inductive Begins (total index : ℕ) (run : ReleaseRun) : Location → Prop where
  | done step (found : run.steps[index]? = some step) (succeeded : step.status = .succeeded) :
      Begins total index run (enter total (index + 1) run)
  | unmet step (found : run.steps[index]? = some step)
      (unfinished : step.status ≠ .succeeded) dependency :
      Begins total index run (.stamp .finish (stoppedRun run index .blocked
        ("selected dependency did not succeed: " ++ dependency) .blocked))
  | evaluate step (found : run.steps[index]? = some step) (unfinished : step.status ≠ .succeeded) :
      Begins total index run (.evaluating index run step)
  | missing (none : run.steps[index]? = none) : Begins total index run (.finished (.error .panic))

/-- Where the loop over the steps goes on or ends. -/
inductive Location.Opening : Location → Prop where
  | poll index run : Opening (.poll index run)
  | finish run : Opening (.stamp .finish run)
  | evaluate index run step : Opening (.evaluating index run step)
  | panic : Opening (.finished (.error .panic))

theorem opening_enter {total index : ℕ} {run : ReleaseRun} : (enter total index run).Opening := by
  unfold enter
  split
  · exact .poll _ _
  · exact .finish _

theorem Begins.opening {total index : ℕ} {run : ReleaseRun} {location : Location}
    (begins : Begins total index run location) : location.Opening := by
  cases begins with
  | done => exact opening_enter
  | unmet => exact .finish _
  | evaluate => exact .evaluate _ _ _
  | missing => exact .panic

section Transitions

variable (digest : Digest) (order : StepOrder) (total : ℕ)

/-- Where the workflow continues with a persisted run. -/
inductive Stores : Goal → ReleaseRun → Location → Prop where
  | begin {run waved} (assigned : assignWaves order run = .ok waved) :
      Stores .begin run (enter total 0 waved)
  | beginFailed {run error} (failed : assignWaves order run = .error error) :
      Stores .begin run (.finished (.error (.waves error)))
  | pause wait index run : Stores (.pause wait index) run (.paused wait index run)
  | resumePoll {index run location}
      (active : run.status ≠ .cancelled) (begins : Begins total index run location) :
      Stores (.resume .poll index) run location
  | resumeApproval {index run} (active : run.status ≠ .cancelled) :
      Stores (.resume .approval index) run (.waiting index run)
  | resumeCancelled {wait index run} (cancelled : run.status = .cancelled) :
      Stores (.resume wait index) run (.finished (.ok run))
  | deny {index decision run} (denied : decision.decision = .deny) :
      Stores (.evaluate index decision) run
        (.stamp .finish (stoppedRun run index .blocked decision.reasonDetail .blocked))
  | request {index decision run} (required : decision.decision = .requireApproval) :
      Stores (.evaluate index decision) run (.requesting index run decision)
  | allow {index decision run step}
      (allowed : decision.decision = .allow) (found : run.steps[index]? = some step) :
      Stores (.evaluate index decision) run (.acquiring index run step)
  | await index run : Stores (.await index) run (.waiting index run)
  | approve {index run step} (found : run.steps[index]? = some step) :
      Stores (.approve index) run (.acquiring index run step)
  | execute {index run step} (found : run.steps[index]? = some step) :
      Stores (.execute index) run (.deploying index run step)
  | verify {index run step input deployed} (found : run.steps[index]? = some step) :
      Stores (.verify index input deployed) run (.observing index run step input deployed)
  | rollback {index run step input reason} (found : run.steps[index]? = some step) :
      Stores (.rollback index input reason) run (.rollingBack index run step input reason)
  | succeed index run : Stores (.succeed index) run (enter total (index + 1) run)
  | finish run : Stores .finish run (.finished (.ok run))
  | missing {goal index run} (reads : goal.index = some index)
      (none : run.steps[index]? = none) : Stores goal run (.finished (.error .panic))

/-- The transitions of the workflow, with the request and its answer. -/
inductive Moves : Location → Event requests → Location → Prop where
  | stamp goal run updatedAt :
      Moves (.stamp goal run) ⟨.now, updatedAt⟩ (.store goal { run with updatedAt })
  | stored {goal run location} audits eventType
      (stores : Stores order total goal (Activities.persisted run) location) :
      Moves (.store goal run)
        ⟨.persistRun ⟨run, audits, eventType⟩, .ok (Activities.persisted run)⟩ location
  | storeFailed {goal run} audits eventType failure :
      Moves (.store goal run) ⟨.persistRun ⟨run, audits, eventType⟩, .error failure⟩
        (.finished (.error (.activity failure)))
  -- before a step
  | pollCancelled index run :
      Moves (.poll index run) ⟨.receiveCancel, true⟩ (.stamp .finish (cancelledRun run index))
  | poll index run : Moves (.poll index run) ⟨.receiveCancel, false⟩ (.pollPause index run)
  | pollPaused index run :
      Moves (.pollPause index run) ⟨.receivePause, true⟩
        (.stamp (.pause .poll index) (pausedRun run))
  | begins {index run location} (begins : Begins total index run location) :
      Moves (.pollPause index run) ⟨.receivePause, false⟩ location
  -- while the run is paused
  | cancelled {wait index run signal} (named : signal.actor ≠ "") :
      Moves (.paused wait index run) ⟨.selectResume, .cancel signal⟩
        (.stamp .finish (cancelledRun run index))
  | cancelIgnored {wait index run signal} (anonymous : signal.actor = "") :
      Moves (.paused wait index run) ⟨.selectResume, .cancel signal⟩ (.paused wait index run)
  | resumed {wait index run signal} (named : signal.actor ≠ "") :
      Moves (.paused wait index run) ⟨.selectResume, .resume signal⟩
        (.stamp (.resume wait index) (resumedRun run))
  | resumeIgnored {wait index run signal} (anonymous : signal.actor = "") :
      Moves (.paused wait index run) ⟨.selectResume, .resume signal⟩ (.paused wait index run)
  -- policy and approval
  | evaluated index run step decision :
      Moves (.evaluating index run step) ⟨.evaluateStep run step, .ok decision⟩
        (.stamp (.evaluate index decision) (recordedRun run index (.policy decision)))
  | evaluateFailed index run step failure :
      Moves (.evaluating index run step) ⟨.evaluateStep run step, .error failure⟩
        (.finished (.error (.activity failure)))
  | requested {index run step} decision now (found : run.steps[index]? = some step) :
      Moves (.requesting index run decision) ⟨.now, now⟩
        (.store (.await index)
          (awaitingRun run index (newApproval digest run step decision now) now))
  | requestMissing {index run} decision now (none : run.steps[index]? = none) :
      Moves (.requesting index run decision) ⟨.now, now⟩ (.finished (.error .panic))
  | waits {index run step approval} now
      (found : run.steps[index]? = some step) (carried : step.approval = some approval) :
      Moves (.waiting index run) ⟨.now, now⟩ (.selecting index run approval now)
  | waitMissing {index run} now
      (none : ∀ step, run.steps[index]? = some step → step.approval = none) :
      Moves (.waiting index run) ⟨.now, now⟩ (.finished (.error .panic))
  | selectCancelled {index run approval now signal} (named : signal.actor ≠ "") :
      Moves (.selecting index run approval now)
        ⟨.selectApproval (approval.expiresAt - now), .cancel signal⟩
        (.stamp .finish (cancelledRun run index))
  | selectPaused {index run approval now signal} (named : signal.actor ≠ "") :
      Moves (.selecting index run approval now)
        ⟨.selectApproval (approval.expiresAt - now), .pause signal⟩
        (.stamp (.pause .approval index) (pausedRun run))
  | selectExpired index run approval now :
      Moves (.selecting index run approval now)
        ⟨.selectApproval (approval.expiresAt - now), .expired⟩
        (.stamp .finish
          (blockRun run index fun approval => { approval with status := .expired }))
  | selectAccepted {index run approval now signal}
      (accepted : Accepted run.requestedBy approval signal) :
      Moves (.selecting index run approval now)
        ⟨.selectApproval (approval.expiresAt - now), .approval signal⟩ (.deciding index run signal)
  | selectIgnored {index run approval now event} (unexpired : event ≠ .expired)
      (anonymous : event.cancelSignal.actor = "" ∧ event.pauseSignal.actor = "")
      (ignored : ¬Accepted run.requestedBy approval event.signal) :
      Moves (.selecting index run approval now)
        ⟨.selectApproval (approval.expiresAt - now), event⟩ (.waiting index run)
  | revoked {index run signal} decidedAt (action : signal.effectiveAction = "revoke") :
      Moves (.deciding index run signal) ⟨.now, decidedAt⟩
        (.store .finish { blockRun run index (decidedApproval signal decidedAt .revoked) with
          updatedAt := decidedAt })
  | denied {index run signal} decidedAt
      (action : signal.effectiveAction ≠ "revoke" ∧ signal.effectiveAction ≠ "approve") :
      Moves (.deciding index run signal) ⟨.now, decidedAt⟩
        (.store .finish { blockRun run index (decidedApproval signal decidedAt .denied) with
          updatedAt := decidedAt })
  | approved {index run signal} decidedAt (action : signal.effectiveAction = "approve") :
      Moves (.deciding index run signal) ⟨.now, decidedAt⟩
        (.store (.approve index) (approvedRun run index signal decidedAt))
  -- the schedule
  | acquired {index run step result} (allowed : result.allowed = true) :
      Moves (.acquiring index run step)
        ⟨.acquireSchedule run.id (schedulingStep run step), .ok result⟩
        (.stamp (.execute index) (markedRun run index .executing))
  | backpressured {index run step result} (refused : result.allowed = false) :
      Moves (.acquiring index run step)
        ⟨.acquireSchedule run.id (schedulingStep run step), .ok result⟩
        (.stamp .finish (stoppedRun run index .blocked
          ("dispatch backpressured: " ++ result.reason) .blocked))
  | acquireFailed index run step failure :
      Moves (.acquiring index run step)
        ⟨.acquireSchedule run.id (schedulingStep run step), .error failure⟩
        (.finished (.error (.activity failure)))
  | completed goal run service failed :
      Moves (.completing goal run service failed)
        ⟨.completeSchedule run.id service failed, .ok ()⟩ (.stamp goal run)
  | completeFailed goal run service failed failure :
      Moves (.completing goal run service failed)
        ⟨.completeSchedule run.id service failed, .error failure⟩
        (.finished (.error (.activity failure)))
  -- the deployment
  | deployFailed index run step failure :
      Moves (.deploying index run step) ⟨.deploy (deployInput run step), .error failure⟩
        (.completing .finish (stoppedRun run index .unknown
          "deployment state unknown; reconciliation required" .blocked) step.service true)
  | deployed {index run step} result (required : step.verificationRequired = true) :
      Moves (.deploying index run step) ⟨.deploy (deployInput run step), .ok result⟩
        (.stamp (.verify index (deployInput run step) result)
          (markedRun (executedRun run index result.execution) index .verifying))
  | deployedUnverified {index run step} result (optional : step.verificationRequired = false) :
      Moves (.deploying index run step) ⟨.deploy (deployInput run step), .ok result⟩
        (.completing (.succeed index)
          (markedRun (executedRun run index result.execution) index .succeeded) step.service false)
  | observed index run step input deployed :
      Moves (.observing index run step input deployed)
        ⟨.sleep (observationDuration step.observationWindow), .ok ()⟩
        (.verifying index run step input deployed)
  | observeFailed index run step input deployed failure :
      Moves (.observing index run step input deployed)
        ⟨.sleep (observationDuration step.observationWindow), .error failure⟩
        (.finished (.error (.activity failure)))
  | verifyFailed index run step input deployed failure :
      Moves (.verifying index run step input deployed) ⟨.verify deployed.deployment, .error failure⟩
        (.completing .finish (stoppedRun run index .blocked
          ("verification unavailable: " ++ failure.text) .blocked) step.service true)
  | verified index run step input deployed result :
      Moves (.verifying index run step input deployed) ⟨.verify deployed.deployment, .ok result⟩
        (.checking index run step input deployed result)
  | passed {index run step input deployed result} checkedAt (pass : result.outcome = .pass) :
      Moves (.checking index run step input deployed result) ⟨.now, checkedAt⟩
        (.completing (.succeed index)
          (markedRun (verifiedRun run index result checkedAt) index .succeeded) step.service false)
  | escalated {index run step input deployed result} checkedAt
      (failed : result.outcome ≠ .pass) (manual : step.rollbackMode ≠ .automatic) :
      Moves (.checking index run step input deployed result) ⟨.now, checkedAt⟩
        (.completing .finish (stoppedRun (verifiedRun run index result checkedAt) index .escalated
          ("verification " ++ result.outcome.text ++ "; automatic rollback is not authorized: " ++
            step.rollbackMode.text) .escalated) step.service true)
  -- the rollback
  | rolls {index run step input deployed result} checkedAt
      (failed : result.outcome ≠ .pass) (automatic : step.rollbackMode = .automatic) :
      Moves (.checking index run step input deployed result) ⟨.now, checkedAt⟩
        (.stamp (.rollback index ⟨input, deployed.deployment⟩ result.reason)
          (markedRun (verifiedRun run index result checkedAt) index .rollingBack))
  | rollbackFailed index run step input reason failure :
      Moves (.rollingBack index run step input reason) ⟨.rollback input, .error failure⟩
        (.completing .finish (stoppedRun run index .escalated
          ("rollback failed or unknown: " ++ failure.text) .escalated) step.service true)
  | rolledBack index run step input reason result :
      Moves (.rollingBack index run step input reason) ⟨.rollback input, .ok result⟩
        (.rollbackObserving index (recordedRun run index (.rollbackExecution result.execution)) step
          result.deployment reason)
  | rollbackObserved index run step deployment reason :
      Moves (.rollbackObserving index run step deployment reason)
        ⟨.sleep (observationDuration step.observationWindow), .ok ()⟩
        (.rollbackVerifying index run step deployment reason)
  | rollbackObserveFailed index run step deployment reason failure :
      Moves (.rollbackObserving index run step deployment reason)
        ⟨.sleep (observationDuration step.observationWindow), .error failure⟩
        (.finished (.error (.activity failure)))
  | rollbackVerifyFailed index run step deployment reason failure :
      Moves (.rollbackVerifying index run step deployment reason)
        ⟨.verify deployment, .error failure⟩ (.completing .finish (stoppedRun run index .escalated
          ("rollback verification unavailable: " ++ failure.text) .escalated) step.service true)
  | rollbackVerified index run step deployment reason result :
      Moves (.rollbackVerifying index run step deployment reason) ⟨.verify deployment, .ok result⟩
        (.rollbackChecking index run step result reason)
  | rollbackPassed {index run step result reason} checkedAt (pass : result.outcome = .pass) :
      Moves (.rollbackChecking index run step result reason) ⟨.now, checkedAt⟩
        (.completing .finish (stoppedRun (rollbackVerifiedRun run index result checkedAt) index
          .rolledBack reason .failed) step.service true)
  | rollbackRejected {index run step result reason} checkedAt (failed : result.outcome ≠ .pass) :
      Moves (.rollbackChecking index run step result reason) ⟨.now, checkedAt⟩
        (.completing .finish (stoppedRun (rollbackVerifiedRun run index result checkedAt) index
          .escalated ("rollback verification did not pass: " ++ result.outcome.text) .escalated)
          step.service true)

/-- The locations which a history leads to. -/
inductive Reaches (input : ReleaseRun) : History → Location → Prop where
  | start : Reaches input [] (.stamp .begin { input with status := .running })
  | move {history location next event} (reached : Reaches input history location)
      (moves : Moves digest order total location event next) :
      Reaches input (history ++ [event]) next

end Transitions

end Themisy.Workflow.Release
