import Themisy.Interaction.Prog
import Themisy.Store.Memory

/-!
# Activities

This file embeds `PersistRun`, `Deploy` and `Rollback` of
`internal/workflow/activities.go`. An activity is a program.

`Deploy` and `Rollback` guard their call of the executor in the same way, by a
reserved execution. They are one program, `Write.perform`, whose parameter holds the
texts, the record and the call in which the two differ. Times are stored in the
payload of an execution in RFC 3339 notation; reading them back is exact.
-/

namespace Themisy.Workflow

open Domain Store Interaction

structure AuditIntent where
  actorType : String
  actorID : String
  action : String
  resourceType : String
  resourceID : String
  result : String
  details : Json := .null

structure PersistInput where
  run : ReleaseRun
  audits : List AuditIntent
  eventType : String

structure Deployment where
  externalID : String
  startedAt : Time := 0
  finishedAt : Time := 0
  deriving DecidableEq, Inhabited

structure DeployRequest where
  service : String
  environment : String
  desiredVersion : String
  idempotencyKey : String
  deriving DecidableEq

structure DeployInput where
  runID : String
  requestedBy : String
  agentID : String
  service : String
  environment : String
  desiredVersion : String
  idempotencyKey : String
  deriving DecidableEq

structure DeployResult where
  execution : Execution
  deployment : Deployment
  deriving DecidableEq, Inhabited

structure RollbackInput where
  deploy : DeployInput
  deployment : Deployment
  deriving DecidableEq

/-- The fields of `RollbackResult` are those of `DeployResult`. -/
abbrev RollbackResult := DeployResult

/-- How the workflow treats an error of an activity. -/
inductive ErrorClass where
  | retryable
  | terminal
  | unknownExternalState
  deriving DecidableEq

def ErrorClass.text : ErrorClass → String
  | retryable => "RETRYABLE"
  | terminal => "TERMINAL"
  | unknownExternalState => "UNKNOWN_EXTERNAL_STATE"

/-- A `ClassifiedError`, which unwraps to its error. -/
def classifiedError (errorClass : ErrorClass) (operation : String) (error : GoError) : GoError :=
  .wrapped (errorClass.text ++ " " ++ operation) error

def errUnknownExternalState : GoError :=
  .plain "external execution state is unknown"

inductive ActivityError where
  | store (error : StoreError)
  /-- An application error which Temporal does not retry. -/
  | nonRetryable (message : String) (errorClass : ErrorClass) (cause : GoError)
  deriving DecidableEq

/-- The calls of the executor which change something. -/
inductive ExecutorCall where
  | deploy (request : DeployRequest)
  | rollback (deployment : Deployment)
  deriving DecidableEq

/-- The configuration of the activities. -/
structure Activities where
  adapterName : String

namespace Activities

/-- What the activities ask of the store and the executor. -/
inductive Op where
  | now
  | newID (kind : String)
  | updateRunAtomic (run : ReleaseRun) (expectedVersion : ℤ) (audits : List AuditEvent)
      (outbox : List OutboxEvent)
  | getRun (id : String)
  | reserveExecution (record : ExecutionRecord) (audit : AuditEvent) (outbox : OutboxEvent)
  | completeExecution (record : ExecutionRecord) (expectedVersion : ℤ) (audit : AuditEvent)
      (outbox : OutboxEvent)
  | execute (call : ExecutorCall)

abbrev Op.Res : Op → Type
  | now => Time
  | newID _ => String
  | updateRunAtomic _ _ _ _ | getRun _ => Except StoreError ReleaseRun
  | reserveExecution _ _ _ => Except StoreError (ExecutionRecord × Bool)
  | completeExecution _ _ _ _ => Except StoreError Unit
  | execute _ => Except GoError Deployment

def Op.isExecute : Op → Bool
  | execute _ => true
  | _ => false

abbrev requests : Sig := ⟨Op, Op.Res⟩

/-- Answered requests. -/
abbrev History := List (Event requests)

abbrev Call (α : Type) := ExceptT ActivityError (Prog requests) α

def ask (op : Op) : Call op.Res :=
  ExceptT.lift (Prog.perform (S := requests) op)

def auditFor (runID delegatedBy : String) (intent : AuditIntent) (timestamp : Time) :
    Call AuditEvent := do
  let id : String ← ask (.newID "audit")
  return {
    id
    correlationID := runID
    actorType := intent.actorType
    actorID := intent.actorID
    delegatedBy
    action := intent.action
    resourceType := intent.resourceType
    resourceID := intent.resourceID
    result := intent.result
    details := intent.details
    timestamp }

def outbox (kind aggregateID eventType : String) (payload : Json) : Call OutboxEvent := do
  let now : Time ← ask .now
  let id : String ← ask (.newID kind)
  return {
    id
    aggregateType := kind
    aggregateID
    eventType
    payload := .fields payload
    createdAt := now
    availableAt := now }

def runAudits (run : ReleaseRun) : List AuditIntent → Call (List AuditEvent)
  | [] => pure []
  | intent :: rest => do
      let event ← auditFor run.id run.requestedBy intent run.updatedAt
      let later ← runAudits run rest
      return event :: later

def runOutbox (input : PersistInput) : Call (List OutboxEvent) := do
  if input.eventType = "" then return []
  else
    let event ← outbox "run-event" input.run.id input.eventType
      (.object (Json.field "status" (.text input.run.status.text)))
    return [event]

/-- The run as it is stored by a successful update. -/
def persisted (run : ReleaseRun) : ReleaseRun :=
  { run with stateVersion := nextVersion run.stateVersion }

/--
The end of `PersistRun`, for any way to call the store. A version conflict is a success when
the stored run is the one this update would have stored, since an earlier attempt may have
stored it already.
-/
def storeRun {Effect : Type → Type*} [Monad Effect] (run : ReleaseRun)
    (updateRunAtomic getRun : Effect (Except StoreError ReleaseRun))
    (fail : StoreError → Effect ReleaseRun) : Effect ReleaseRun := do
  match ← updateRunAtomic with
  | .ok updated => return updated
  | .error .conflict =>
    match ← getRun with
    | .ok current => if current = persisted run then return current else fail .conflict
    | .error _ => fail .conflict
  | .error error => fail error

def persistRun (input : PersistInput) : Call ReleaseRun := do
  let audits ← runAudits input.run input.audits
  let events ← runOutbox input
  storeRun input.run (ask (.updateRunAtomic input.run input.run.stateVersion audits events))
    (ask (.getRun input.run.id)) fun error => throw (.store error)

/-- A call of the executor which is guarded by a reserved execution. -/
structure Write where
  /-- The kind of the identifier of the execution. -/
  kind : String
  runID : String
  requestedBy : String
  service : String
  adapter : String
  idempotencyKey : String
  payload : Json := .null
  call : ExecutorCall
  reserveIntent : AuditIntent
  reservedEvent : String
  reservedPayload : Json := .null
  resultAction : String
  unknownEvent : String
  unknownDetails : GoError → Json := fun _ => .null
  succeededEvent : String
  /-- The error for an execution which is reserved but has not succeeded. -/
  unresolved : ActivityError
  unknown : GoError → ActivityError
  unpersisted : StoreError → ActivityError

/-- The time under a name of a payload, which is zero when there is none. -/
def timeOf (payload : Json) (name : String) : Time :=
  match payload.lookup name with
  | some (.time nanoseconds _) => nanoseconds
  | _ => 0

def deploymentPayload (deployment : Deployment) : Json :=
  .object (Json.field "started_at" (.time deployment.startedAt 0) ++
    Json.field "finished_at" (.time deployment.finishedAt 0))

/-- The result of an activity from the record of its execution. -/
def resultOf (record : ExecutionRecord) (deployment : Deployment) : DeployResult where
  execution := {
    id := record.id
    adapter := record.adapter
    idempotencyKey := record.idempotencyKey
    status := record.status.elim "" ExecutionStatus.text
    externalExecutionID := deployment.externalID
    startedAt := deployment.startedAt
    finishedAt := deployment.finishedAt }
  deployment

/-- The recorded result of an execution which has succeeded before. -/
def replay (record : ExecutionRecord) : DeployResult :=
  resultOf record {
    externalID := record.externalExecutionID
    startedAt := timeOf record.payload "started_at"
    finishedAt := timeOf record.payload "finished_at" }

namespace Write

variable (write : Write)

def record (id : String) (now : Time) : ExecutionRecord where
  id
  runID := write.runID
  service := write.service
  adapter := write.adapter
  idempotencyKey := write.idempotencyKey
  payload := write.payload
  createdAt := now
  updatedAt := now

def resultIntent (result : String) (details : Json) : AuditIntent where
  actorType := "system"
  actorID := "workflow-worker"
  action := write.resultAction
  resourceType := "service"
  resourceID := write.service
  result
  details

/-- Record the outcome of the call; the result is that of the store. -/
def complete (completed : ExecutionRecord) (result : String) (details : Json) (eventType : String) :
    Call (Except StoreError Unit) := do
  let audit ← auditFor write.runID write.requestedBy (write.resultIntent result details)
    completed.updatedAt
  let event ← outbox "execution" completed.id eventType .null
  ask (.completeExecution completed completed.stateVersion audit event)

/-- Call the executor for an execution which this activity has reserved. -/
def runReserved (reserved : ExecutionRecord) : Call DeployResult := do
  match (← ask (.execute write.call) : Except GoError Deployment) with
  | .error error =>
    let updatedAt : Time ← ask .now
    let _ ← write.complete { reserved with status := some .unknown, updatedAt } "UNKNOWN"
      (write.unknownDetails error) write.unknownEvent
    throw (write.unknown error)
  | .ok deployment =>
    let updatedAt : Time ← ask .now
    let completed := { reserved with
      status := some .succeeded
      externalExecutionID := deployment.externalID
      payload := deploymentPayload deployment
      updatedAt }
    match ← write.complete completed "SUCCEEDED"
        (.object (Json.field "external_execution_id" (.text deployment.externalID)))
        write.succeededEvent with
    | .error error => throw (write.unpersisted error)
    | .ok () => return resultOf completed deployment

/-- Reserve the execution and call the executor, unless the execution exists. -/
def perform : Call DeployResult := do
  let now : Time ← ask .now
  let id : String ← ask (.newID write.kind)
  let audit ← auditFor write.runID write.requestedBy write.reserveIntent now
  let event ← outbox "execution" id write.reservedEvent write.reservedPayload
  match (← ask (.reserveExecution (write.record id now) audit event) :
      Except StoreError (ExecutionRecord × Bool)) with
  | .error error => throw (.store error)
  | .ok (reserved, true) => write.runReserved reserved
  | .ok (existing, false) =>
    if existing.status = some .succeeded then return replay existing
    else throw write.unresolved

end Write

variable (activities : Activities)

def deployWrite (input : DeployInput) : Write where
  kind := "execution"
  runID := input.runID
  requestedBy := input.requestedBy
  service := input.service
  adapter := activities.adapterName
  idempotencyKey := input.idempotencyKey
  payload := .object (Json.field "desired_version" (.text input.desiredVersion))
  call := .deploy {
    service := input.service
    environment := input.environment
    desiredVersion := input.desiredVersion
    idempotencyKey := input.idempotencyKey }
  reserveIntent := {
    actorType := "agent"
    actorID := input.agentID
    action := "deployment.reserve"
    resourceType := "service"
    resourceID := input.service
    result := "AUTHORIZED"
    details := .object (Json.field "adapter" (.text activities.adapterName) ++
      Json.field "idempotency_key" (.text input.idempotencyKey)) }
  reservedEvent := "execution.reserved"
  reservedPayload := .object (Json.field "adapter" (.text activities.adapterName) ++
    Json.field "idempotency_key" (.text input.idempotencyKey))
  resultAction := "deployment.result"
  unknownEvent := "execution.unknown"
  unknownDetails error := .object (Json.field "error" (.text error.text))
  succeededEvent := "execution.succeeded"
  unresolved := .nonRetryable "reserved execution requires reconciliation" .unknownExternalState
    (classifiedError .unknownExternalState "deploy" errUnknownExternalState)
  unknown error := .nonRetryable "deployment result is unknown" .unknownExternalState
    (classifiedError .unknownExternalState "deploy" error)
  unpersisted error := .nonRetryable "deployment succeeded but persistence is unknown"
    .unknownExternalState error.toGoError

def rollbackWrite (input : RollbackInput) : Write where
  kind := "rollback"
  runID := input.deploy.runID
  requestedBy := input.deploy.requestedBy
  service := input.deploy.service
  adapter := activities.adapterName ++ ".rollback"
  idempotencyKey := input.deploy.idempotencyKey ++ "/rollback"
  call := .rollback input.deployment
  reserveIntent := {
    actorType := "system"
    actorID := "workflow-worker"
    action := "rollback.reserve"
    resourceType := "service"
    resourceID := input.deploy.service
    result := "AUTHORIZED" }
  reservedEvent := "rollback.reserved"
  resultAction := "rollback.result"
  unknownEvent := "rollback.unknown"
  succeededEvent := "rollback.succeeded"
  unresolved := .nonRetryable "rollback state requires reconciliation" .unknownExternalState
    errUnknownExternalState
  unknown error := .nonRetryable "rollback result is unknown" .unknownExternalState error
  unpersisted error := .nonRetryable "rollback succeeded but persistence is unknown"
    .unknownExternalState error.toGoError

def deploy (input : DeployInput) : Call DeployResult :=
  (activities.deployWrite input).perform

def rollback (input : RollbackInput) : Call RollbackResult :=
  (activities.rollbackWrite input).perform

end Activities

end Themisy.Workflow
