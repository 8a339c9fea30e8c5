import Themisy.Encoding.Float64
import Themisy.Collections.Table
import Themisy.Store.Memory

/-!
# The PostgreSQL store

This file embeds the operations of `internal/store/postgres` on runs, executions,
outbox events and runner actions, over the tables of the migrations. Every operation
is one transaction, and one which fails leaves the database as it was.

A row holds the columns which some operation reads back. The rows which `syncChildren`
writes are not kept, but the statements and the constraints on them are. Arguments for
enumerations are left out, since their texts are constants.

The server is a parameter: it refuses a statement with an argument which the type of
its column cannot represent. Times are stored in microseconds.
-/

namespace Themisy.Json

-- encoding and decoding turn every number into a float64, and NaN has no encoding
mutual

/-- The value which is read back from the JSON encoding of a value, if it has one. -/
def decoded : Json → Option Json
  | number value => some (.float (.finite (Float64.nearest value)))
  | float (.finite value) => some (.float (.finite value))
  | float _ => none
  | array items => (decodedItems items).map .array
  | object fields => (decodedFields fields).map .object
  | value => some value

/-- The items which are read back. -/
def decodedItems : List Json → Option (List Json)
  | [] => some []
  | item :: rest => do return (← decoded item) :: (← decodedItems rest)

/-- The fields which are read back. -/
def decodedFields : List (String × Json) → Option (List (String × Json))
  | [] => some []
  | (name, value) :: rest => do return (name, ← decoded value) :: (← decodedFields rest)

end

end Themisy.Json

namespace Themisy.Store

open Domain Protocol

/-- Values which are stored as JSON. -/
inductive Document where
  | run (value : ReleaseRun)
  | step (value : ReleaseStep)
  | decision (value : PolicyDecision)
  | roles (value : List String)
  | fields (value : Json)
  | payload (value : OutboxPayload)
  | target (value : Target)
  | action (value : Action)
  | result (value : Result)

/-- An argument of a statement, by the type of its column. -/
inductive Argument where
  | text (value : String)
  | integer (value : ℤ)
  | bigint (value : ℤ)
  | timestamptz (value : Time)
  | jsonb (value : Document)

/-- What the column types of a server can represent; no text contains a NUL. -/
structure Server where
  represents : Argument → Bool
  not_mem_of_represents : ∀ value, represents (.text value) = true → '\x00' ∉ value.toList

/-- A `timestamptz` counts microseconds. -/
def microseconds (time : Time) : Time :=
  time / 1000 * 1000

def invalidArgument : StoreError :=
  .other (.plain "invalid argument")

def violates (constraint : String) : StoreError :=
  .other (.plain ("violates constraint " ++ constraint))

namespace Server

variable (server : Server)

/-- Every argument is one which the server represents. -/
def Accepts (arguments : List Argument) : Prop :=
  ∀ argument ∈ arguments, server.represents argument = true

instance (arguments : List Argument) : Decidable (server.Accepts arguments) :=
  inferInstanceAs (Decidable (∀ argument ∈ arguments, server.represents argument = true))

/-- Bind the arguments of a statement. -/
def execute (arguments : List Argument) : Except StoreError Unit :=
  require (server.Accepts arguments) invalidArgument

end Server

def insertRunArguments (run : ReleaseRun) : List Argument :=
  [.text run.id, .text run.requestID, .text run.workflowID, .text run.temporalRunID,
    .text run.releaseVersion, .text run.environment.text, .text run.requestedBy,
    .bigint run.stateVersion, .jsonb (.run run), .timestamptz run.createdAt,
    .timestamptz run.updatedAt]

def updateRunArguments (run : ReleaseRun) (expectedVersion : ℤ) : List Argument :=
  [.text run.id, .text run.temporalRunID, .bigint run.stateVersion, .jsonb (.run run),
    .timestamptz run.updatedAt, .bigint expectedVersion]

def upsertStepArguments (run : ReleaseRun) (step : ReleaseStep) : List Argument :=
  [.text run.id, .text step.service, .text run.environment.text, .integer step.phase,
    .bigint run.stateVersion, .jsonb (.step step), .timestamptz run.updatedAt]

def insertDecisionArguments (run : ReleaseRun) (step : ReleaseStep) (policy : PolicyDecision) :
    List Argument :=
  [.text ("policy/" ++ run.id ++ "/" ++ step.service ++ "/" ++ policy.inputHash), .text run.id,
    .text step.service, .text policy.policyVersion, .text policy.inputHash,
    .text policy.reasonCode, .jsonb (.decision policy), .timestamptz policy.createdAt]

def upsertApprovalArguments (run : ReleaseRun) (step : ReleaseStep) (approval : Approval) :
    List Argument :=
  [.text approval.id, .text run.id, .text step.service, .text approval.planHash,
    .jsonb (.roles approval.requiredRoles), .timestamptz approval.requestedAt,
    .timestamptz approval.expiresAt, .text approval.decidedBy] ++
    approval.decidedAt.toList.map .timestamptz ++ [.bigint run.stateVersion]

def insertAuditArguments (event : AuditEvent) : List Argument :=
  [.text event.id, .text event.correlationID, .text event.actorType, .text event.actorID,
    .text event.delegatedBy, .text event.action, .text event.resourceType,
    .text event.resourceID, .text event.result, .jsonb (.fields event.details),
    .timestamptz event.timestamp]

def insertOutboxArguments (event : OutboxEvent) : List Argument :=
  [.text event.id, .text event.aggregateType, .text event.aggregateID, .text event.eventType,
    .jsonb (.payload event.payload), .integer event.attempts, .timestamptz event.availableAt] ++
    event.publishedAt.toList.map .timestamptz ++ [.timestamptz event.createdAt]

def insertExecutionArguments (record : ExecutionRecord) : List Argument :=
  [.text record.id, .text record.runID, .text record.service, .text record.adapter,
    .text record.idempotencyKey, .text record.externalExecutionID,
    .jsonb (.fields record.payload), .bigint record.stateVersion, .timestamptz record.createdAt,
    .timestamptz record.updatedAt]

def updateExecutionArguments (record : ExecutionRecord) (expectedVersion : ℤ) : List Argument :=
  [.text record.adapter, .text record.idempotencyKey, .text record.externalExecutionID,
    .jsonb (.fields record.payload), .bigint (nextVersion expectedVersion),
    .timestamptz record.updatedAt, .bigint expectedVersion]

def insertActionArguments (record : RunnerActionRecord) : List Argument :=
  [.text record.grantID, .text record.runID, .text record.stepID, .text record.tenantID,
    .text record.runnerGroup, .text record.nonce, .text record.idempotencyKey,
    .text record.requestHash, .jsonb (.target record.target), .jsonb (.action record.action),
    .jsonb (.result record.result), .bigint record.stateVersion, .timestamptz record.createdAt,
    .timestamptz record.updatedAt]

def updateActionArguments (record : RunnerActionRecord) (expected : ℤ) : List Argument :=
  [.jsonb (.result record.result), .bigint (nextVersion expected), .timestamptz record.updatedAt,
    .text record.tenantID, .text record.runnerGroup, .text record.nonce, .bigint expected]

/-- A run as a row: its columns and its payload. -/
structure RunRow where
  id : String
  requestID : String
  workflowID : String
  stateVersion : ℤ
  payload : ReleaseRun

namespace RunRow

def primaryKey (row : RunRow) : List String := [row.id]

def requestKey (row : RunRow) : List String := [row.requestID]

def workflowKey (row : RunRow) : List String := [row.workflowID]

def ofRun (run : ReleaseRun) : RunRow :=
  ⟨run.id, run.requestID, run.workflowID, run.stateVersion, run⟩

end RunRow

def ExecutionRecord.primaryKey (record : ExecutionRecord) : List String :=
  [record.id]

def ExecutionRecord.adapterKey (record : ExecutionRecord) : List String :=
  [record.adapter, record.idempotencyKey]

def RunnerActionRecord.primaryKey (record : RunnerActionRecord) : List String :=
  [record.tenantID, record.runnerGroup, record.nonce]

def RunnerActionRecord.requestKey (record : RunnerActionRecord) : List String :=
  [record.tenantID, record.runnerGroup, record.idempotencyKey]

/-- The tables which the store reads and writes. -/
structure Database where
  releaseRuns : Table [RunRow.primaryKey, RunRow.requestKey, RunRow.workflowKey] := {}
  executions : Table [ExecutionRecord.primaryKey, ExecutionRecord.adapterKey] := {}
  auditEvents : Table [AuditEvent.id] := {}
  outboxEvents : Table [OutboxEvent.id] := {}
  runnerJournal : Table [RunnerActionRecord.primaryKey, RunnerActionRecord.requestKey] := {}

namespace Database

variable (server : Server) (database : Database)

def syncStep (run : ReleaseRun) (step : ReleaseStep) : Except StoreError Unit := do
  server.execute (upsertStepArguments run step)
  require (0 ≤ step.phase ∧ 0 < run.stateVersion) (violates "release_steps_check")
  match step.policy with
  | none => pure ()
  | some policy => server.execute (insertDecisionArguments run step policy)
  match step.approval with
  | none => pure ()
  | some approval => server.execute (upsertApprovalArguments run step approval)

def syncChildren (run : ReleaseRun) : Except StoreError Unit :=
  run.steps.forM (syncStep server run)

def insertAudit (event : AuditEvent) : Except StoreError Database := do
  server.execute (insertAuditArguments event)
  match database.auditEvents.insert { event with timestamp := microseconds event.timestamp } with
  | none => .error (violates "audit_events_id_key")
  | some auditEvents => return { database with auditEvents }

def insertOutbox (event : OutboxEvent) : Except StoreError Database := do
  server.execute (insertOutboxArguments event)
  require (0 ≤ event.attempts) (violates "outbox_events_attempts_check")
  match database.outboxEvents.insert { event with
      availableAt := microseconds event.availableAt
      publishedAt := event.publishedAt.map microseconds
      createdAt := microseconds event.createdAt } with
  | none => .error (violates "outbox_events_pkey")
  | some outboxEvents => return { database with outboxEvents }

def insertEvents (audits : List AuditEvent) (outbox : List OutboxEvent) :
    Except StoreError Database := do
  let audited ← audits.foldlM (insertAudit server) database
  outbox.foldlM (insertOutbox server) audited

def getRun (id : String) : Except StoreError ReleaseRun := do
  server.execute [.text id]
  match database.releaseRuns.select fun row => row.primaryKey = [id] with
  | some row => return row.payload
  | none => .error .notFound

def getRunByRequest (requestID : String) : Except StoreError ReleaseRun := do
  server.execute [.text requestID]
  match database.releaseRuns.select fun row => row.requestKey = [requestID] with
  | some row => return row.payload
  | none => .error .notFound

/-- A run without a workflow identifier gets its own identifier for it. -/
def withWorkflowID (run : ReleaseRun) : ReleaseRun :=
  if run.workflowID = "" then { run with workflowID := run.id } else run

def createRunAtomic (run : ReleaseRun) (audits : List AuditEvent) (outbox : List OutboxEvent) :
    Except StoreError ((ReleaseRun × Bool) × Database) := do
  let stored := withWorkflowID run
  server.execute (insertRunArguments stored)
  require (0 < stored.stateVersion) (violates "release_runs_state_version_check")
  match database.releaseRuns.insert (.ofRun stored) with
  | none =>
    -- The source takes every unique violation for one of the request identifier.
    let existing ← database.getRunByRequest server stored.requestID
    return ((existing, false), database)
  | some releaseRuns =>
    syncChildren server stored
    let next ← insertEvents server { database with releaseRuns } audits
      (Memory.appendProjection outbox stored)
    return ((stored, true), next)

def replacedRun (run : ReleaseRun) (row : RunRow) : RunRow :=
  { row with stateVersion := run.stateVersion, payload := run }

theorem replacedRun_keeps (run : ReleaseRun) :
    ∀ key ∈ [RunRow.primaryKey, RunRow.requestKey, RunRow.workflowKey], ∀ row,
      key (replacedRun run row) = key row := by
  simp [RunRow.primaryKey, RunRow.requestKey, RunRow.workflowKey, replacedRun]

/-- The rows which an update of a run in the expected version changes. -/
def isCurrentRun (id : String) (expectedVersion : ℤ) (row : RunRow) : Bool :=
  row.primaryKey = [id] && row.stateVersion = expectedVersion

variable {expectedVersion : ℤ}

theorem isCurrentRun_iff {id : String} {row : RunRow} :
    isCurrentRun id expectedVersion row = true ↔
      row.primaryKey = [id] ∧ row.stateVersion = expectedVersion := by
  simp [isCurrentRun]

def replaceRun (run : ReleaseRun) (expectedVersion : ℤ) : Database :=
  { database with
    releaseRuns := database.releaseRuns.update (isCurrentRun run.id expectedVersion)
      (replacedRun run) (replacedRun_keeps run) }

def updateRunAtomic (run : ReleaseRun) (expectedVersion : ℤ) (audits : List AuditEvent)
    (outbox : List OutboxEvent) : Except StoreError (ReleaseRun × Database) := do
  let updated := run.advanced expectedVersion
  server.execute (updateRunArguments updated expectedVersion)
  if database.releaseRuns.affected (isCurrentRun updated.id expectedVersion) = 0 then
    match database.releaseRuns.select fun row => row.primaryKey = [updated.id] with
    | some _ => .error .conflict
    | none => .error .notFound
  else
    require (0 < updated.stateVersion) (violates "release_runs_state_version_check")
    syncChildren server updated
    let next ← insertEvents server (database.replaceRun updated expectedVersion) audits
      (Memory.appendProjection outbox updated)
    return (updated, next)

/-- The values which a payload consists of after it was stored as JSON. -/
def storedPayload (payload : Json) : Except StoreError Json :=
  match payload.decoded with
  | some decoded => .ok decoded
  | none => .error (.other (.plain "json: unsupported value"))

def getExecution (adapter idempotencyKey : String) : Except StoreError ExecutionRecord := do
  server.execute [.text adapter, .text idempotencyKey]
  match database.executions.select fun row => row.adapterKey = [adapter, idempotencyKey] with
  | some row => return row
  | none => .error .notFound

def reserveExecution (record : ExecutionRecord) (audit : AuditEvent) (outbox : OutboxEvent) :
    Except StoreError ((ExecutionRecord × Bool) × Database) := do
  let reserved := record.reserved
  let payload ← storedPayload reserved.payload
  server.execute (insertExecutionArguments reserved)
  match database.executions.insert { reserved with
      payload
      createdAt := microseconds reserved.createdAt
      updatedAt := microseconds reserved.updatedAt } with
  | none =>
    let existing ← database.getExecution server reserved.adapter reserved.idempotencyKey
    return ((existing, false), database)
  | some executions =>
    require (∃ row ∈ database.releaseRuns.rows, row.id = reserved.runID)
      (violates "executions_run_id_fkey")
    let next ← insertEvents server { database with executions } [audit] [outbox]
    return ((reserved, true), next)

def completedExecution (record : ExecutionRecord) (version : ℤ) (row : ExecutionRecord) :
    ExecutionRecord :=
  { row with
    status := record.status
    externalExecutionID := record.externalExecutionID
    payload := record.payload
    stateVersion := version
    updatedAt := microseconds record.updatedAt }

theorem completedExecution_keeps (record : ExecutionRecord) (version : ℤ) :
    ∀ key ∈ [ExecutionRecord.primaryKey, ExecutionRecord.adapterKey], ∀ row,
      key (completedExecution record version row) = key row := by
  simp [ExecutionRecord.primaryKey, ExecutionRecord.adapterKey, completedExecution]

/-- The rows which completing an execution in the expected version changes. -/
def isCurrentExecution (record : ExecutionRecord) (expectedVersion : ℤ) (row : ExecutionRecord) :
    Bool :=
  row.adapterKey = record.adapterKey && row.stateVersion = expectedVersion

theorem isCurrentExecution_iff {record row : ExecutionRecord} :
    isCurrentExecution record expectedVersion row = true ↔
      row.adapterKey = record.adapterKey ∧ row.stateVersion = expectedVersion := by
  simp [isCurrentExecution]

def replaceExecution (record : ExecutionRecord) (expectedVersion : ℤ) : Database :=
  { database with
    executions := database.executions.update (isCurrentExecution record expectedVersion)
      (completedExecution record (nextVersion expectedVersion))
      (completedExecution_keeps record (nextVersion expectedVersion)) }

def completeExecution (record : ExecutionRecord) (expectedVersion : ℤ) (audit : AuditEvent)
    (outbox : OutboxEvent) : Except StoreError Database := do
  let payload ← storedPayload record.payload
  server.execute (updateExecutionArguments record expectedVersion)
  if database.executions.affected (isCurrentExecution record expectedVersion) = 0 then
    .error .conflict
  else
    require (0 < nextVersion expectedVersion) (violates "executions_state_version_check")
    insertEvents server (database.replaceExecution { record with payload } expectedVersion) [audit]
      [outbox]

def publishedEvent (publishedAt : Time) (row : OutboxEvent) : OutboxEvent :=
  { row with publishedAt := some (microseconds publishedAt), attempts := row.attempts + 1 }

def markOutboxPublished (id : String) (publishedAt : Time) : Except StoreError Database := do
  server.execute [.text id, .timestamptz publishedAt]
  let condition := fun row : OutboxEvent => row.id = id && row.publishedAt = none
  if database.outboxEvents.affected condition = 0 then .error .notFound
  else
    require (∀ row ∈ database.outboxEvents.rows,
      condition row = true → server.Accepts [.integer (row.attempts + 1)]) invalidArgument
    return { database with
      outboxEvents := database.outboxEvents.update condition (publishedEvent publishedAt)
        (by simp [publishedEvent]) }

def selectAction (condition : RunnerActionRecord → Bool) : Except StoreError RunnerActionRecord :=
  match database.runnerJournal.select condition with
  | some row => .ok row
  | none => .error .notFound

def getRunnerAction (tenantID runnerGroup nonce : String) :
    Except StoreError RunnerActionRecord := do
  server.execute [.text tenantID, .text runnerGroup, .text nonce]
  database.selectAction fun row => row.primaryKey = [tenantID, runnerGroup, nonce]

def reserveRunnerAction (record : RunnerActionRecord) (audit : AuditEvent) :
    Except StoreError ((RunnerActionRecord × Bool) × Database) := do
  let reserved := record.reserved
  server.execute (insertActionArguments reserved)
  let created := { reserved with
    createdAt := microseconds reserved.createdAt
    updatedAt := microseconds reserved.updatedAt }
  match database.runnerJournal.insert created with
  | some runnerJournal =>
    let next ← insertAudit server { database with runnerJournal } audit
    return ((created, true), next)
  | none =>
    -- The row with the nonce is ordered before the one with the idempotency key.
    match database.runnerJournal.select fun row => row.primaryKey = record.primaryKey with
    | some existing => return ((existing, false), database)
    | none =>
      let existing ← database.selectAction fun row => row.requestKey = record.requestKey
      return ((existing, false), database)

def completedAction (record : RunnerActionRecord) (version : ℤ) (row : RunnerActionRecord) :
    RunnerActionRecord :=
  { row with
    status := record.status
    result := record.result
    stateVersion := version
    updatedAt := microseconds record.updatedAt }

theorem completedAction_keeps (record : RunnerActionRecord) (version : ℤ) :
    ∀ key ∈ [RunnerActionRecord.primaryKey, RunnerActionRecord.requestKey], ∀ row,
      key (completedAction record version row) = key row := by
  simp [RunnerActionRecord.primaryKey, RunnerActionRecord.requestKey, completedAction]

/-- The rows which completing an action in the expected version changes. -/
def isCurrentAction (record : RunnerActionRecord) (expected : ℤ) (row : RunnerActionRecord) :
    Bool :=
  row.primaryKey = record.primaryKey && row.stateVersion = expected

theorem isCurrentAction_iff {record row : RunnerActionRecord} {expected : ℤ} :
    isCurrentAction record expected row = true ↔
      row.primaryKey = record.primaryKey ∧ row.stateVersion = expected := by
  simp [isCurrentAction]

def replaceAction (record : RunnerActionRecord) (expected : ℤ) : Database :=
  { database with
    runnerJournal := database.runnerJournal.update (isCurrentAction record expected)
      (completedAction record (nextVersion expected))
      (completedAction_keeps record (nextVersion expected)) }

def completeRunnerAction (record : RunnerActionRecord) (expected : ℤ) (audit : AuditEvent) :
    Except StoreError Database := do
  server.execute (updateActionArguments record expected)
  if database.runnerJournal.affected (isCurrentAction record expected) = 0 then .error .conflict
  else
    require (record.status ≠ none ∧ 0 < nextVersion expected) (violates "runner_journal_check")
    insertAudit server (database.replaceAction record expected) audit

end Database

end Themisy.Store
