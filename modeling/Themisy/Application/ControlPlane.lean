import Themisy.Application.NewRun
import Themisy.Workflow.Release

/-!
# The control plane

This file embeds the operations of `ControlPlane` in `releases.go` and `approvals.go`
of `internal/application`, on behalf of an authenticated tenant.

An operation is a program whose requests are the calls of the store and of the
workflow controller, the clock, the generator of identifiers and the order of maps.
A failure carries the value which the source returns together with an error.
-/

namespace Themisy.Application

open Domain Planning Store Interaction Workflow

/-- The errors of the control plane. -/
inductive ControlError where
  | go (error : GoError)
  | invalidRequest (detail : String)
  | approval (detail : String)
  | store (error : StoreError)
  /-- An error of the workflow controller. -/
  | workflows (message : String)
  | wrapped (context : String) (error : ControlError)
  deriving DecidableEq

/-- What the operations return. -/
inductive Response where
  | plan (plan : ReleasePlan)
  | run (run : ReleaseRun)
  | started (run : ReleaseRun) (created : Bool)
  | events (events : List AuditEvent)
  | approvals (summaries : List ApprovalSummary)

/-- An error, with the value which is returned together with it. -/
structure Failure where
  error : ControlError
  response : Option Response := none

inductive ControlAction where
  | cancel
  | pause
  | resume
  deriving DecidableEq

/-- What the control plane asks of its components. -/
inductive Op where
  | now
  | newID (kind : String)
  | iterationOrder
  | savePlan (plan : ReleasePlan)
  | getPlan (id : String)
  | createRunAtomic (run : ReleaseRun) (audits : List AuditEvent) (outbox : List OutboxEvent)
  | getRun (id : String)
  | listRuns
  | auditEvents (correlationID : String)
  | pendingOutboxByType (eventType : String) (limit : ℤ)
  | markOutboxPublished (id : String) (publishedAt : Time)
  | startRelease (run : ReleaseRun)
  | signalApproval (workflowID : String) (signal : ApprovalSignal)
  | signalControl (action : ControlAction) (workflowID : String) (signal : ControlSignal)

abbrev Op.Res : Op → Type
  | now => Time
  | newID _ => String
  | iterationOrder => IterationOrder String
  | savePlan _ => Except StoreError Unit
  | getPlan _ => Except StoreError ReleasePlan
  | createRunAtomic _ _ _ => Except StoreError (ReleaseRun × Bool)
  | getRun _ => Except StoreError ReleaseRun
  | listRuns => Except StoreError (List ReleaseRun)
  | auditEvents _ => Except StoreError (List AuditEvent)
  | pendingOutboxByType _ _ => Except StoreError (List OutboxEvent)
  | markOutboxPublished _ _ => Except StoreError Unit
  | startRelease _ | signalApproval _ _ | signalControl _ _ _ => Except String Unit

abbrev requests : Sig := ⟨Op, Op.Res⟩

/-- Answered requests. -/
abbrev History := List (Event requests)

abbrev Call (α : Type) := ExceptT Failure (Prog requests) α

def ask (op : Op) : Call op.Res :=
  ExceptT.lift (Prog.perform (S := requests) op)

def refuse {α : Type} (error : ControlError) : Call α :=
  throw { error }

def returning {α : Type} : Except ControlError α → Call α
  | .ok value => pure value
  | .error error => refuse error

def stored {α : Type} (answer : Except StoreError α) : Call α :=
  returning (answer.mapError .store)

def signalled (answer : Except String Unit) : Call Unit :=
  returning (answer.mapError .workflows)

def tenantBoundaryError : ControlError :=
  .go (newReasonError .tenantBoundary "tenant_id" "resource is outside the authenticated tenant")

def planTenant (plan : ReleasePlan) : String :=
  match plan.steps with
  | step :: _ => normalized step.scheduling.tenantID "default"
  | [] => "default"

/-- The tenant of an intent after it was bound to the authenticated one. -/
def bindTenant (authenticated requested : String) : Except ControlError String :=
  let authenticated := normalized authenticated "default"
  if requested = "" then .ok authenticated
  else if requested ≠ authenticated then .error tenantBoundaryError
  else .ok requested

/-- The configuration of the control plane. -/
structure Releases where
  digest : Digest
  planner : Planner

def validateRequest (request : ReleaseRequest) : Except ControlError Unit := do
  require (request.requestID ≠ "") (.invalidRequest "request_id is required")
  require (request.releaseVersion ≠ "") (.invalidRequest "release_version is required")
  require (request.requestedBy ≠ "") (.invalidRequest "requested_by is required")
  require (request.agent.id ≠ "") (.invalidRequest "delegated_agent.id is required")

/-- `start` drops the plan of a failed `PlanIntent`. -/
def withoutResponse {α : Type} (call : Call α) : Call α :=
  ExceptT.mk (do
    match (← call.run) with
    | .ok value => return .ok value
    | .error failure => return .error { error := failure.error })

def startAudit (id : String) (run : ReleaseRun) (request : ReleaseRequest) (now : Time) :
    AuditEvent where
  id
  correlationID := run.id
  actorType := "user"
  actorID := request.requestedBy
  delegatedBy := request.requestedBy
  action := "release.start"
  resourceType := "release_run"
  resourceID := run.id
  result := "ACCEPTED"
  details := .object (Json.field "plan_hash" (.text run.plan.hash) ++
    Json.field "workflow_id" (.text run.workflowID))
  timestamp := now

def startOutbox (id : String) (run : ReleaseRun) (now : Time) : OutboxEvent where
  id
  aggregateType := "release_run"
  aggregateID := run.id
  eventType := "release.workflow.requested"
  payload := .fields (.object (Json.field "workflow_id" (.text run.workflowID)))
  createdAt := now
  availableAt := now

namespace Releases

variable (releases : Releases)

def planIntent (intent : ReleaseIntent) : Call ReleasePlan := do
  returning (validateRequest (legacyRequestFromIntent intent))
  let order : IterationOrder String ← ask .iterationOrder
  let now : Time ← ask .now
  let plan ← returning
    ((releases.planner.planIntent releases.digest order now intent).mapError .go)
  match (← ask (.savePlan plan) : Except StoreError Unit) with
  | .ok () => return plan
  | .error error => throw { error := .store error, response := some (.plan plan) }

def planIntentForTenant (tenant : String) (intent : ReleaseIntent) : Call Response := do
  let tenantID ← returning (bindTenant tenant intent.tenantID)
  return .plan (← releases.planIntent { intent with tenantID })

/-- Publish the request for the workflow of a run which was created. -/
def startWorkflow (run : ReleaseRun) (outboxID : String) : Call Response := do
  match (← ask (.startRelease run) : Except String Unit) with
  | .error message =>
    throw { error := .wrapped "start temporal release workflow" (.workflows message)
            response := some (.started run true) }
  | .ok () =>
    let publishedAt : Time ← ask .now
    match (← ask (.markOutboxPublished outboxID publishedAt) : Except StoreError Unit) with
    | .error error =>
      throw { error := .wrapped "mark workflow request published" (.store error)
              response := some (.started run true) }
    | .ok () => return .started run true

def start (request : ReleaseRequest) (plan : ReleasePlan) : Call Response := do
  let validatedAt : Time ← ask .now
  returning ((releases.planner.validatePlan releases.digest plan validatedAt).mapError fun error =>
    .wrapped "validate release plan before workflow start" (.go error))
  let now : Time ← ask .now
  let runID : String ← ask (.newID "run")
  let run := newRun runID now request plan
  let auditID : String ← ask (.newID "audit")
  let outboxID : String ← ask (.newID "workflow")
  let (existing, created) ← stored (← ask (.createRunAtomic run
    [startAudit auditID run request now] [startOutbox outboxID run now]))
  if created then startWorkflow existing outboxID else return .started existing false

def startIntent (intent : ReleaseIntent) : Call Response := do
  let plan ← withoutResponse (releases.planIntent intent)
  releases.start (legacyRequestFromIntent intent) plan

def startIntentForTenant (tenant : String) (intent : ReleaseIntent) : Call Response := do
  let tenantID ← returning (bindTenant tenant intent.tenantID)
  releases.startIntent { intent with tenantID }

end Releases

def getPlan (tenant id : String) : Call Response := do
  let plan ← stored (← ask (.getPlan id))
  returning (require (planTenant plan = normalized tenant "default") tenantBoundaryError)
  return .plan plan

def getRun (id : String) : Call ReleaseRun := do
  stored (← ask (.getRun id))

def getForTenant (tenant id : String) : Call ReleaseRun := do
  let run ← getRun id
  returning (require (normalized run.tenantID "default" = normalized tenant "default")
    tenantBoundaryError)
  return run

def eventsForTenant (tenant id : String) : Call Response := do
  let _ ← getForTenant tenant id
  return .events (← stored (← ask (.auditEvents id)))

/-- The first approval of the run with the identifier. -/
def findApproval (run : ReleaseRun) (approvalID : String) : Option Approval :=
  (run.steps.filterMap ReleaseStep.approval).find? fun approval => approval.id = approvalID

def pendingApproval (run : ReleaseRun) (approvalID absent : String) :
    Except ControlError Approval :=
  match findApproval run approvalID with
  | some approval =>
    if approval.status = .pending then .ok approval else .error (.approval absent)
  | none => .error (.approval absent)

def checkDecision (run : ReleaseRun) (approval : Approval) (now : Time) (actor : String)
    (roles : List String) (approve : Bool) : Except ControlError Unit := do
  require (approval.planHash = run.plan.hash)
    (.approval "plan changed after approval request")
  require (now < approval.expiresAt) (.approval "approval expired")
  require (¬(approve ∧ actor = run.requestedBy))
    (.approval "requester cannot approve their own release")
  require (¬(approve ∧ ¬Release.containsAll roles approval.requiredRoles))
    (.approval ("approver lacks required roles " ++ GoText.showSlice approval.requiredRoles))

def decideApproval (runID approvalID actor : String) (roles : List String) (approve : Bool) :
    Call Response := do
  returning (require (actor ≠ "") (.approval "approval actor is required"))
  let run ← getRun runID
  let approval ← returning (pendingApproval run approvalID "pending approval not found")
  let now : Time ← ask .now
  returning (checkDecision run approval now actor roles approve)
  signalled (← ask (.signalApproval run.workflowID
    { approvalID, actor, roles, approve, action := if approve then "approve" else "deny" }))
  return .run (← getRun runID)

def decideApprovalForTenant (tenant runID approvalID actor : String) (roles : List String)
    (approve : Bool) : Call Response := do
  let _ ← getForTenant tenant runID
  decideApproval runID approvalID actor roles approve

def revokeApprovalForTenant (tenant runID approvalID actor : String) (roles : List String) :
    Call Response := do
  returning (require (actor ≠ "") (.approval "approval actor is required"))
  let run ← getForTenant tenant runID
  let approval ← returning
    (pendingApproval run approvalID "only a pending approval can be revoked safely")
  returning (require (Release.containsAll roles approval.requiredRoles)
    (.approval ("revoker lacks required roles " ++ GoText.showSlice approval.requiredRoles)))
  signalled (← ask (.signalApproval run.workflowID
    { approvalID, actor, roles, action := "revoke" }))
  return .run (← getRun runID)

def pendingSummary (tenant : String) (run : ReleaseRun) (step : ReleaseStep) :
    Option ApprovalSummary :=
  match step.approval with
  | some approval =>
    if approval.status = .pending then
      some { approval, runID := run.id, service := step.service, tenantID := tenant }
    else none
  | none => none

def pendingSummaries (tenant : String) (runs : List ReleaseRun) : List ApprovalSummary :=
  (runs.filter fun run => normalized run.tenantID "default" = tenant).flatMap fun run =>
    run.steps.filterMap (pendingSummary tenant run)

def listPendingApprovals (tenant : String) : Call Response := do
  let runs ← stored (← ask .listRuns)
  return .approvals (pendingSummaries (normalized tenant "default") runs)

def controlAction : String → Except ControlError ControlAction
  | "cancel" => .ok .cancel
  | "pause" => .ok .pause
  | "resume" => .ok .resume
  | action => .error (.go (.plain ("unsupported release control action " ++ GoText.quote action)))

def control (runID actor action : String) : Call Response := do
  returning (require (actor ≠ "") (.go (.plain "actor is required")))
  let run ← getRun runID
  let kind ← returning (controlAction action)
  signalled (← ask (.signalControl kind run.workflowID { actor }))
  return .run (← getRun runID)

def controlForTenant (tenant runID actor action : String) : Call Response := do
  let _ ← getForTenant tenant runID
  control runID actor action

/-- The operations of a tenant, with the arguments which the caller chooses. -/
inductive Operation where
  | planIntent (intent : ReleaseIntent)
  | getPlan (id : String)
  | startIntent (intent : ReleaseIntent)
  | get (runID : String)
  | events (runID : String)
  | control (runID actor action : String)
  | listPendingApprovals
  | decideApproval (runID approvalID actor : String) (roles : List String) (approve : Bool)
  | revokeApproval (runID approvalID actor : String) (roles : List String)

def Operation.program (releases : Releases) (tenant : String) : Operation → Call Response
  | planIntent intent => releases.planIntentForTenant tenant intent
  | getPlan id => Application.getPlan tenant id
  | startIntent intent => releases.startIntentForTenant tenant intent
  | get runID => do return .run (← getForTenant tenant runID)
  | events runID => eventsForTenant tenant runID
  | control runID actor action => controlForTenant tenant runID actor action
  | listPendingApprovals => Application.listPendingApprovals tenant
  | decideApproval runID approvalID actor roles approve =>
    decideApprovalForTenant tenant runID approvalID actor roles approve
  | revokeApproval runID approvalID actor roles =>
    revokeApprovalForTenant tenant runID approvalID actor roles

end Themisy.Application
