import Themisy.Domain.Run
import Themisy.Protocol.ActionGrant

/-!
# The in-memory store

This file embeds `internal/store/memory.go`. Every operation holds the lock of the
store, so it is a function of its state; one which fails leaves the state as it was.
Copying a run or a plan through its JSON encoding is the identity here.

Two maps are indexes into others: the request identifiers lead to runs, and the
idempotency keys of runner actions to the records under their nonces. The state
carries the proofs that these leads are never dangling.
-/

namespace Themisy.Store

open Domain Protocol

/-- The errors which the stores return. -/
inductive StoreError where
  | notFound
  | conflict
  | other (error : GoError)
  deriving DecidableEq

def StoreError.toGoError : StoreError → GoError
  | notFound => .plain "resource not found"
  | conflict => .plain "release run state version conflict"
  | other error => error

inductive ExecutionStatus where
  | reserved
  | succeeded
  | failed
  | unknown
  deriving DecidableEq

def ExecutionStatus.text : ExecutionStatus → String
  | reserved => "RESERVED"
  | succeeded => "SUCCEEDED"
  | failed => "FAILED"
  | unknown => "UNKNOWN"

/-- A row of the execution journal. -/
structure ExecutionRecord where
  id : String
  runID : String
  service : String
  adapter : String
  idempotencyKey : String
  /-- The empty status of a record which is not stored yet is `none`. -/
  status : Option ExecutionStatus := none
  externalExecutionID : String := ""
  /-- Values of any type; an integer is a `Json.number`, and a float64 is a `Json.float`. -/
  payload : Json := .null
  stateVersion : ℤ := 0
  createdAt : Time
  updatedAt : Time

inductive RunnerActionStatus where
  | reserved
  | succeeded
  | unknown
  | rejected
  deriving DecidableEq

/-- A row of the runner journal. -/
structure RunnerActionRecord where
  grantID : String
  runID : String
  stepID : String
  tenantID : String
  runnerGroup : String
  nonce : String
  idempotencyKey : String
  requestHash : String
  target : Target
  action : Action
  /-- The empty status of a record which is not stored yet is `none`. -/
  status : Option RunnerActionStatus := none
  result : Result := {}
  stateVersion : ℤ := 0
  createdAt : Time
  updatedAt : Time
  deriving DecidableEq

def executionKey (adapter idempotencyKey : String) : String :=
  adapter ++ "\x00" ++ idempotencyKey

def runnerNonceKey (tenant runnerGroup nonce : String) : String :=
  tenant ++ "\x00" ++ runnerGroup ++ "\x00" ++ nonce

def runnerIdempotencyKey (tenant runnerGroup key : String) : String :=
  tenant ++ "\x00" ++ runnerGroup ++ "\x00" ++ key

/-- The key of an execution in its map. -/
abbrev ExecutionRecord.mapKey (record : ExecutionRecord) : String :=
  executionKey record.adapter record.idempotencyKey

/-- The key of an action in the map by nonces. -/
abbrev RunnerActionRecord.nonceKey (record : RunnerActionRecord) : String :=
  runnerNonceKey record.tenantID record.runnerGroup record.nonce

/-- The key of an action in the index by idempotency keys. -/
abbrev RunnerActionRecord.claimKey (record : RunnerActionRecord) : String :=
  runnerIdempotencyKey record.tenantID record.runnerGroup record.idempotencyKey

/-- A new execution, as a store reserves it. -/
abbrev ExecutionRecord.reserved (record : ExecutionRecord) : ExecutionRecord :=
  { record with status := some .reserved, stateVersion := 1 }

/-- A new action, as a store reserves it. -/
abbrev RunnerActionRecord.reserved (record : RunnerActionRecord) : RunnerActionRecord :=
  { record with status := some .reserved, stateVersion := 1 }

/-- An execution with the version after an expected one. -/
abbrev ExecutionRecord.advanced (record : ExecutionRecord) (version : ℤ) : ExecutionRecord :=
  { record with stateVersion := nextVersion version }

/-- An action with the version after an expected one. -/
abbrev RunnerActionRecord.advanced (record : RunnerActionRecord) (version : ℤ) :
    RunnerActionRecord :=
  { record with stateVersion := nextVersion version }

/-- The store in memory, without its lock. -/
structure Memory where
  runs : GoMap String ReleaseRun := ∅
  plans : GoMap String ReleasePlan := ∅
  runByRequestID : GoMap String String := ∅
  audit : GoMap String (List AuditEvent) := ∅
  executions : GoMap String ExecutionRecord := ∅
  outbox : List OutboxEvent := []
  projections : GoMap String ReleaseRun := ∅
  runnerActions : GoMap String RunnerActionRecord := ∅
  runnerByKey : GoMap String String := ∅
  journalError : Option GoError := none
  requestIndex : GoMap.Indexes runByRequestID runs := by exact GoMap.Indexes.empty
  actionIndex : GoMap.Indexes runnerByKey runnerActions := by exact GoMap.Indexes.empty

def newMemory : Memory := {}

namespace Memory

variable (memory : Memory)

def savePlan (plan : ReleasePlan) : Memory :=
  { memory with plans := memory.plans.set plan.id plan }

def getPlan (id : String) : Except StoreError ReleasePlan :=
  match memory.plans.get? id with
  | some plan => .ok plan
  | none => .error .notFound

def appendAudit (event : AuditEvent) : Memory :=
  { memory with
    audit := memory.audit.set event.correlationID
      (memory.audit.find event.correlationID [] ++ [event]) }

def appendAtomic (audit : List AuditEvent) (outbox : List OutboxEvent) : Memory :=
  let appended := audit.foldl appendAudit memory
  { appended with outbox := appended.outbox ++ outbox }

def appendProjection (events : List OutboxEvent) (run : ReleaseRun) : List OutboxEvent :=
  events ++ [{
    id := "projection/" ++ run.id ++ "/" ++ toString run.stateVersion
    aggregateType := "release_run"
    aggregateID := run.id
    eventType := "release.run.project"
    payload := .run run
    createdAt := run.updatedAt
    availableAt := run.updatedAt }]

/-- The run which a request identifier leads to. -/
def indexedRun {requestID id : String}
    (found : memory.runByRequestID.get? requestID = some id) : ReleaseRun :=
  (memory.runs.get? id).get (memory.requestIndex requestID id found)

def insertRun (run : ReleaseRun) : Memory :=
  { memory with
    runs := memory.runs.set run.id run
    projections := memory.projections.set run.id run
    runByRequestID := memory.runByRequestID.set run.requestID run.id
    requestIndex := memory.requestIndex.set_both run.requestID run.id run }

/-- Create a run, or return the run which was created for the same request identifier. -/
def createRunAtomic (run : ReleaseRun) (audit : List AuditEvent) (outbox : List OutboxEvent) :
    Except StoreError ((ReleaseRun × Bool) × Memory) :=
  match found : memory.runByRequestID.get? run.requestID with
  | some _ => .ok ((memory.indexedRun found, false), memory)
  | none => do
      require (memory.runs.get? run.id = none)
        (.other (.plain ("duplicate run id " ++ GoText.quote run.id)))
      return ((run, true), (memory.insertRun run).appendAtomic audit (appendProjection outbox run))

def getRun (id : String) : Except StoreError ReleaseRun :=
  match memory.runs.get? id with
  | some run => .ok run
  | none => .error .notFound

/-- The order of `ListRuns`: later runs first, then by identifier. -/
def ListedBefore (left right : ReleaseRun) : Prop :=
  right.createdAt < left.createdAt ∨ left.createdAt = right.createdAt ∧ left.id ≤ right.id

instance : DecidableRel ListedBefore :=
  fun _ _ => inferInstanceAs (Decidable (_ ∨ _))

def listRuns (order : IterationOrder ReleaseRun) : List ReleaseRun :=
  (order.arrange 0 memory.runs.values).insertionSort ListedBefore

def replaceRun (run : ReleaseRun) : Memory :=
  { memory with
    runs := memory.runs.set run.id run
    projections := memory.projections.set run.id run
    requestIndex := memory.requestIndex.set_table run.id run }

/-- Replace a run whose stored version is the expected one; the result is the stored run. -/
def updateRunAtomic (run : ReleaseRun) (expectedVersion : ℤ) (audit : List AuditEvent)
    (outbox : List OutboxEvent) : Except StoreError (ReleaseRun × Memory) :=
  match memory.runs.get? run.id with
  | none => .error .notFound
  | some current => do
      require (current.stateVersion = expectedVersion) .conflict
      let updated := run.advanced expectedVersion
      return (updated,
        (memory.replaceRun updated).appendAtomic audit (appendProjection outbox updated))

def auditEvents (correlationID : String) : List AuditEvent :=
  memory.audit.find correlationID []

def setRun (id : String) (run : ReleaseRun) : Memory :=
  { memory with
    runs := memory.runs.set id run
    requestIndex := memory.requestIndex.set_table id run }

def setExecution (record : ExecutionRecord) : Memory :=
  { memory with
    executions := memory.executions.set record.mapKey record }

def reserveExecution (record : ExecutionRecord) (audit : AuditEvent) (outbox : OutboxEvent) :
    (ExecutionRecord × Bool) × Memory :=
  match memory.executions.get? record.mapKey with
  | some existing => ((existing, false), memory)
  | none =>
    let reserved := record.reserved
    ((reserved, true), (memory.setExecution reserved).appendAtomic [audit] [outbox])

def completeExecution (record : ExecutionRecord) (expectedVersion : ℤ) (audit : AuditEvent)
    (outbox : OutboxEvent) : Except StoreError Memory :=
  match memory.executions.get? record.mapKey with
  | none => .error .notFound
  | some current => do
      require (current.stateVersion = expectedVersion) .conflict
      let completed := record.advanced expectedVersion
      return (memory.setExecution completed).appendAtomic [audit] [outbox]

def getExecution (adapter idempotencyKey : String) : Except StoreError ExecutionRecord :=
  match memory.executions.get? (executionKey adapter idempotencyKey) with
  | some record => .ok record
  | none => .error .notFound

/-- Unpublished events, of one type unless the type is empty, up to a limit. -/
def pendingOutbox (eventType : String) (limit : ℤ) : List OutboxEvent :=
  let bound := if limit ≤ 0 ∨ (memory.outbox.length : ℤ) < limit then memory.outbox.length
    else limit.toNat
  (memory.outbox.filter fun event =>
    event.publishedAt = none ∧ (eventType = "" ∨ event.eventType = eventType)).take bound

/-- Mark the first event with the identifier as published. -/
def markPublished (id : String) (publishedAt : Time) :
    List OutboxEvent → Except StoreError (List OutboxEvent)
  | [] => .error .notFound
  | event :: rest =>
    if event.id = id then .ok ({ event with publishedAt := some publishedAt } :: rest)
    else (markPublished id publishedAt rest).map (event :: ·)

def markOutboxPublished (id : String) (publishedAt : Time) : Except StoreError Memory := do
  let outbox ← markPublished id publishedAt memory.outbox
  return { memory with outbox }

/-- The statement with which every operation of the journal begins. -/
def checkJournal : Except StoreError Unit :=
  match memory.journalError with
  | some error => .error (.other error)
  | none => .ok ()

def getRunnerAction (tenantID runnerGroup nonce : String) :
    Except StoreError RunnerActionRecord := do
  memory.checkJournal
  match memory.runnerActions.get? (runnerNonceKey tenantID runnerGroup nonce) with
  | some record => .ok record
  | none => .error .notFound

/-- The record which an idempotency key leads to. -/
def indexedAction {key nonceKey : String}
    (found : memory.runnerByKey.get? key = some nonceKey) : RunnerActionRecord :=
  (memory.runnerActions.get? nonceKey).get (memory.actionIndex key nonceKey found)

def insertAction (record : RunnerActionRecord) : Memory :=
  { memory with
    runnerActions := memory.runnerActions.set record.nonceKey record
    runnerByKey := memory.runnerByKey.set record.claimKey record.nonceKey
    actionIndex := memory.actionIndex.set_both _ _ record }

/-- Reserve an action unless its nonce or its idempotency key is taken. -/
def reserveRunnerAction (record : RunnerActionRecord) (audit : AuditEvent) :
    Except StoreError ((RunnerActionRecord × Bool) × Memory) := do
  memory.checkJournal
  match memory.runnerActions.get? record.nonceKey with
  | some existing => .ok ((existing, false), memory)
  | none =>
    match found : memory.runnerByKey.get? record.claimKey with
    | some _ => .ok ((memory.indexedAction found, false), memory)
    | none =>
      let reserved := record.reserved
      .ok ((reserved, true), (memory.insertAction reserved).appendAudit audit)

def replaceAction (record : RunnerActionRecord) : Memory :=
  { memory with
    runnerActions := memory.runnerActions.set record.nonceKey record
    actionIndex := memory.actionIndex.set_table _ record }

def completeRunnerAction (record : RunnerActionRecord) (expected : ℤ) (audit : AuditEvent) :
    Except StoreError Memory := do
  memory.checkJournal
  match memory.runnerActions.get? record.nonceKey with
  | none => .error .notFound
  | some current => do
      require (current.stateVersion = expected) .conflict
      let completed := record.advanced expected
      return (memory.replaceAction completed).appendAudit audit

/-- Reserved and unknown actions of a runner group, in no particular order. -/
def pendingRunnerActions (order : IterationOrder RunnerActionRecord) (tenantID runnerGroup : String)
    (limit : ℤ) : Except StoreError (List RunnerActionRecord) := do
  memory.checkJournal
  let pending := (order.arrange 0 memory.runnerActions.values).filter fun record =>
    record.tenantID = tenantID ∧ record.runnerGroup = runnerGroup ∧
      (record.status = some .reserved ∨ record.status = some .unknown)
  return if 0 < limit then pending.take limit.toNat else pending

theorem auditEvents_appendAudit (audit : AuditEvent) (correlationID : String) :
    (memory.appendAudit audit).auditEvents correlationID =
      if correlationID = audit.correlationID then memory.auditEvents correlationID ++ [audit]
      else memory.auditEvents correlationID := by
  simp only [auditEvents, appendAudit, GoMap.find_set]
  split
  · next same => rw [same]
  · rfl

section

variable (audits : List AuditEvent) (outbox : List OutboxEvent)

include audits outbox

/-- Appended events change nothing but the audit log and the outbox. -/
theorem exists_appendAtomic_eq :
    ∃ table, memory.appendAtomic audits outbox =
      { memory with audit := table, outbox := memory.outbox ++ outbox } := by
  have appended : ∃ table, audits.foldl appendAudit memory = { memory with audit := table } := by
    induction audits generalizing memory with
    | nil => exact ⟨memory.audit, rfl⟩
    | cons audit rest ih => exact ih (memory.appendAudit audit)
  obtain ⟨table, eq⟩ := appended
  exact ⟨table, by rw [appendAtomic, eq]⟩

theorem auditEvents_appendAtomic (correlationID : String) :
    (memory.appendAtomic audits outbox).auditEvents correlationID =
      memory.auditEvents correlationID ++
        audits.filter fun audit => audit.correlationID = correlationID := by
  change (audits.foldl appendAudit memory).auditEvents correlationID = _
  induction audits generalizing memory with
  | nil => simp
  | cons audit rest ih =>
    rw [List.foldl_cons, ih, auditEvents_appendAudit]
    by_cases same : correlationID = audit.correlationID
    · simp [same]
    · simp [same, Ne.symm same]

@[simp]
theorem runs_appendAtomic :
    (memory.appendAtomic audits outbox).runs = memory.runs := by
  obtain ⟨table, eq⟩ := memory.exists_appendAtomic_eq audits outbox
  rw [eq]

@[simp]
theorem projections_appendAtomic :
    (memory.appendAtomic audits outbox).projections = memory.projections := by
  obtain ⟨table, eq⟩ := memory.exists_appendAtomic_eq audits outbox
  rw [eq]

@[simp]
theorem executions_appendAtomic :
    (memory.appendAtomic audits outbox).executions = memory.executions := by
  obtain ⟨table, eq⟩ := memory.exists_appendAtomic_eq audits outbox
  rw [eq]

end

variable {audits : List AuditEvent} {run updated : ReleaseRun} {next : Memory}
  {events : List OutboxEvent} {expectedVersion : ℤ}

theorem createRunAtomic_cases {memory : Memory} {requested : ReleaseRun} {created : Bool}
    {outbox : List OutboxEvent}
    (eq : memory.createRunAtomic requested audits outbox = .ok ((run, created), next)) :
    (created = false ∧ next = memory ∧ ∃ id ∈ memory.runByRequestID.get? requested.requestID,
      memory.runs.get? id = some run) ∨
    (created = true ∧ run = requested ∧ memory.runByRequestID.get? requested.requestID = none ∧
      memory.runs.get? requested.id = none ∧
      next = (memory.insertRun requested).appendAtomic audits
        (appendProjection outbox requested)) := by
  unfold createRunAtomic at eq
  split at eq
  · next id found =>
    cases eq
    exact Or.inl ⟨rfl, rfl, id, found, (Option.some_get _).symm⟩
  · next unclaimed =>
    simp only [bind_eq_ok, require_eq_ok, exists_const] at eq
    obtain ⟨absent, returned⟩ := eq
    cases returned
    exact Or.inr ⟨rfl, rfl, unclaimed, absent, rfl⟩

theorem eq_of_updateRunAtomic {memory : Memory}
    (stored : memory.updateRunAtomic run expectedVersion audits events = .ok (updated, next)) :
    updated = run.advanced expectedVersion ∧
      next = (memory.replaceRun updated).appendAtomic audits (appendProjection events updated) := by
  unfold updateRunAtomic at stored
  split at stored
  · cases stored
  · simp only [bind_eq_ok, require_eq_ok, exists_const] at stored
    obtain ⟨-, returned⟩ := stored
    cases returned
    exact ⟨rfl, rfl⟩

/-- Only a run which is stored with the expected version is updated. -/
theorem exists_of_updateRunAtomic {memory : Memory}
    (stored : memory.updateRunAtomic run expectedVersion audits events = .ok (updated, next)) :
    ∃ current, memory.runs.get? run.id = some current ∧
      current.stateVersion = expectedVersion := by
  unfold updateRunAtomic at stored
  split at stored
  · cases stored
  · next current found =>
    simp only [bind_eq_ok, require_eq_ok, exists_const] at stored
    exact ⟨current, found, stored.1⟩

end Memory

end Themisy.Store
