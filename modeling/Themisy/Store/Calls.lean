import Themisy.Interaction.Play
import Themisy.Store.Postgres

/-!
# Calls of the two stores

The in-memory store and the PostgreSQL store implement the same ten operations. A
sequence of calls is made to both, from empty stores, and their answers are compared:
the returned values and the classes of the errors.

`Admissible` says which calls callers make, given the database before the call, and
`Compatible` under which condition the stores agree on them.
-/

namespace Themisy.Store

open Domain Protocol Interaction

/-- The calls which both stores answer. -/
inductive StoreCall where
  | createRunAtomic (run : ReleaseRun) (audits : List AuditEvent) (outbox : List OutboxEvent)
  | getRun (id : String)
  | updateRunAtomic (run : ReleaseRun) (expectedVersion : ℤ) (audits : List AuditEvent)
      (outbox : List OutboxEvent)
  | reserveExecution (record : ExecutionRecord) (audit : AuditEvent) (outbox : OutboxEvent)
  | completeExecution (record : ExecutionRecord) (expectedVersion : ℤ) (audit : AuditEvent)
      (outbox : OutboxEvent)
  | getExecution (adapter idempotencyKey : String)
  | markOutboxPublished (id : String) (publishedAt : Time)
  | reserveRunnerAction (record : RunnerActionRecord) (audit : AuditEvent)
  | getRunnerAction (tenantID runnerGroup nonce : String)
  | completeRunnerAction (record : RunnerActionRecord) (expected : ℤ) (audit : AuditEvent)

/-- What a call returns; an update returns the run as it has left it to the caller. -/
abbrev StoreCall.Value : StoreCall → Type
  | createRunAtomic _ _ _ => ReleaseRun × Bool
  | getRun _ | updateRunAtomic _ _ _ _ => ReleaseRun
  | reserveExecution _ _ _ => ExecutionRecord × Bool
  | getExecution _ _ => ExecutionRecord
  | reserveRunnerAction _ _ => RunnerActionRecord × Bool
  | getRunnerAction _ _ _ => RunnerActionRecord
  | completeExecution _ _ _ _ | markOutboxPublished _ _ | completeRunnerAction _ _ _ => Unit

/-- The errors which callers tell apart. -/
inductive FailureClass where
  | notFound
  | conflict
  | other
  deriving DecidableEq

def StoreError.failureClass : StoreError → FailureClass
  | notFound => .notFound
  | conflict => .conflict
  | other _ => .other

def Memory.perform (memory : Memory) : (call : StoreCall) → Except StoreError call.Value × Memory
  | .createRunAtomic run audits outbox =>
    answerOf memory (memory.createRunAtomic run audits outbox)
  | .getRun id => (memory.getRun id, memory)
  | .updateRunAtomic run expectedVersion audits outbox =>
    answerOf memory (memory.updateRunAtomic run expectedVersion audits outbox)
  | .reserveExecution record audit outbox =>
    answerOf memory (.ok (memory.reserveExecution record audit outbox))
  | .completeExecution record expectedVersion audit outbox =>
    answerOf memory ((memory.completeExecution record expectedVersion audit outbox).map ((), ·))
  | .getExecution adapter idempotencyKey => (memory.getExecution adapter idempotencyKey, memory)
  | .markOutboxPublished id publishedAt =>
    answerOf memory ((memory.markOutboxPublished id publishedAt).map ((), ·))
  | .reserveRunnerAction record audit =>
    answerOf memory (memory.reserveRunnerAction record audit)
  | .getRunnerAction tenantID runnerGroup nonce =>
    (memory.getRunnerAction tenantID runnerGroup nonce, memory)
  | .completeRunnerAction record expected audit =>
    answerOf memory ((memory.completeRunnerAction record expected audit).map ((), ·))

def Database.perform (server : Server) (database : Database) :
    (call : StoreCall) → Except StoreError call.Value × Database
  | .createRunAtomic run audits outbox =>
    answerOf database (database.createRunAtomic server run audits outbox)
  | .getRun id => (database.getRun server id, database)
  | .updateRunAtomic run expectedVersion audits outbox =>
    answerOf database (database.updateRunAtomic server run expectedVersion audits outbox)
  | .reserveExecution record audit outbox =>
    answerOf database (database.reserveExecution server record audit outbox)
  | .completeExecution record expectedVersion audit outbox =>
    answerOf database
      ((database.completeExecution server record expectedVersion audit outbox).map ((), ·))
  | .getExecution adapter idempotencyKey =>
    (database.getExecution server adapter idempotencyKey, database)
  | .markOutboxPublished id publishedAt =>
    answerOf database ((database.markOutboxPublished server id publishedAt).map ((), ·))
  | .reserveRunnerAction record audit =>
    answerOf database (database.reserveRunnerAction server record audit)
  | .getRunnerAction tenantID runnerGroup nonce =>
    (database.getRunnerAction server tenantID runnerGroup nonce, database)
  | .completeRunnerAction record expected audit =>
    answerOf database ((database.completeRunnerAction server record expected audit).map ((), ·))

/-- Both stores answer every call with the same value or the same class of error. -/
def AnswersAgree (server : Server) : Memory → Database → List StoreCall → Prop
  | _, _, [] => True
  | memory, database, call :: rest =>
    (memory.perform call).1.mapError StoreError.failureClass =
        (database.perform server call).1.mapError StoreError.failureClass ∧
      AnswersAgree server (memory.perform call).2 (database.perform server call).2 rest

namespace Database

variable (server : Server) (database : Database)

def FreshAudits (audits : List AuditEvent) : Prop :=
  ((database.auditEvents.rows ++ audits).map AuditEvent.id).Nodup

instance (audits : List AuditEvent) : Decidable (database.FreshAudits audits) :=
  inferInstanceAs (Decidable (List.Nodup _))

def FreshOutbox (outbox : List OutboxEvent) : Prop :=
  ((database.outboxEvents.rows ++ outbox).map OutboxEvent.id).Nodup

instance (outbox : List OutboxEvent) : Decidable (database.FreshOutbox outbox) :=
  inferInstanceAs (Decidable (List.Nodup _))

def Claimed (requestID : String) : Prop :=
  ∃ row ∈ database.releaseRuns.rows, row.requestID = requestID

instance (requestID : String) : Decidable (database.Claimed requestID) :=
  inferInstanceAs (Decidable (∃ row ∈ database.releaseRuns.rows, row.requestID = requestID))

def Current (run : ReleaseRun) (version : ℤ) : Prop :=
  ∃ row ∈ database.releaseRuns.rows, row.id = run.id ∧ row.stateVersion = version

instance (run : ReleaseRun) (version : ℤ) : Decidable (database.Current run version) :=
  inferInstanceAs (Decidable (∃ row ∈ database.releaseRuns.rows,
    row.id = run.id ∧ row.stateVersion = version))

/-- A time of microsecond precision. -/
def Precise (time : Time) : Prop :=
  microseconds time = time

instance (time : Time) : Decidable (Precise time) :=
  inferInstanceAs (Decidable (_ = _))

/--
The calls which callers make: identifiers of events are new, and so is the
workflow identifier of a new run; services of a run are distinct; executions
belong to stored runs; stored times have microsecond precision.
-/
def Admissible : StoreCall → Prop
  | .createRunAtomic run audits outbox =>
    database.FreshAudits audits ∧ database.FreshOutbox outbox ∧
      (run.steps.map ReleaseStep.service).Nodup ∧
      (¬database.Claimed run.requestID →
        run.workflowID ≠ "" ∧ ∀ row ∈ database.releaseRuns.rows, row.workflowID ≠ run.workflowID)
  | .updateRunAtomic run _ audits outbox =>
    database.FreshAudits audits ∧ database.FreshOutbox outbox ∧
      (run.steps.map ReleaseStep.service).Nodup
  | .reserveExecution record audit outbox =>
    database.FreshAudits [audit] ∧ database.FreshOutbox [outbox] ∧
      (∃ row ∈ database.releaseRuns.rows, row.id = record.runID) ∧
      Precise record.createdAt ∧ Precise record.updatedAt
  | .completeExecution record _ audit outbox =>
    database.FreshAudits [audit] ∧ database.FreshOutbox [outbox] ∧
      (∃ row ∈ database.releaseRuns.rows, row.id = record.runID) ∧ Precise record.updatedAt
  | .reserveRunnerAction record audit =>
    database.FreshAudits [audit] ∧ Precise record.createdAt ∧ Precise record.updatedAt
  | .completeRunnerAction record _ audit =>
    database.FreshAudits [audit] ∧ Precise record.updatedAt
  | .getRun _ | .getExecution _ _ | .markOutboxPublished _ _ | .getRunnerAction _ _ _ => True

instance (call : StoreCall) : Decidable (database.Admissible call) := by
  cases call <;> dsimp only [Admissible] <;> infer_instance

/-- The statements for the steps of a run meet the column types and constraints. -/
def AcceptsChildren (run : ReleaseRun) : Prop :=
  ∀ step ∈ run.steps, server.Accepts (upsertStepArguments run step) ∧ 0 ≤ step.phase ∧
    (∀ policy ∈ step.policy, server.Accepts (insertDecisionArguments run step policy)) ∧
    ∀ approval ∈ step.approval, server.Accepts (upsertApprovalArguments run step approval)

instance (run : ReleaseRun) : Decidable (AcceptsChildren server run) := by
  unfold AcceptsChildren
  infer_instance

/-- The statements for events meet the column types and constraints. -/
def AcceptsEvents (audits : List AuditEvent) (outbox : List OutboxEvent) : Prop :=
  (∀ event ∈ audits, server.Accepts (insertAuditArguments event)) ∧
    ∀ event ∈ outbox, server.Accepts (insertOutboxArguments event) ∧ 0 ≤ event.attempts

instance (audits : List AuditEvent) (outbox : List OutboxEvent) :
    Decidable (AcceptsEvents server audits outbox) :=
  inferInstanceAs (Decidable (_ ∧ _))

/-- The statements for the events of a run meet them too, and its projection event is new. -/
def AcceptsProjection (run : ReleaseRun) (audits : List AuditEvent) (outbox : List OutboxEvent) :
    Prop :=
  AcceptsEvents server audits (Memory.appendProjection outbox run) ∧
    database.FreshOutbox (Memory.appendProjection outbox run)

instance (run : ReleaseRun) (audits : List AuditEvent) (outbox : List OutboxEvent) :
    Decidable (AcceptsProjection server database run audits outbox) :=
  inferInstanceAs (Decidable (_ ∧ _))

/-- The payload of an execution is not changed by encoding and decoding it. -/
def Plain (record : ExecutionRecord) : Prop :=
  record.payload.decoded = some record.payload

instance (record : ExecutionRecord) : Decidable (Plain record) :=
  inferInstanceAs (Decidable (_ = _))

/-- The fields which completing an execution leaves alone in the database. -/
def SameExecution (row record : ExecutionRecord) : Prop :=
  row.id = record.id ∧ row.runID = record.runID ∧ row.service = record.service ∧
    row.createdAt = record.createdAt

instance (row record : ExecutionRecord) : Decidable (SameExecution row record) :=
  inferInstanceAs (Decidable (_ ∧ _))

/-- The fields which completing a runner action leaves alone in the database. -/
def SameAction (row record : RunnerActionRecord) : Prop :=
  row.grantID = record.grantID ∧ row.runID = record.runID ∧ row.stepID = record.stepID ∧
    row.idempotencyKey = record.idempotencyKey ∧ row.requestHash = record.requestHash ∧
    row.target = record.target ∧ row.action = record.action ∧ row.createdAt = record.createdAt

instance (row record : RunnerActionRecord) : Decidable (SameAction row record) :=
  inferInstanceAs (Decidable (_ ∧ _))

/--
The condition on a call under which the stores agree. The arguments of its
statements meet the column types and constraints, and
* a new request has a new run, and the projection event of a stored run is new;
* a new execution has a new identifier, and payloads are what their encodings are decoded to;
* a completed record is stored, completing it changes only what the database updates, and its
  version does not overflow;
* a published event is not published again.
-/
def Compatible : StoreCall → Prop
  | .createRunAtomic run audits outbox =>
    server.Accepts (insertRunArguments (withWorkflowID run)) ∧ 0 < run.stateVersion ∧
      (database.Claimed run.requestID ∨
        (∀ row ∈ database.releaseRuns.rows, row.id ≠ run.id) ∧ AcceptsChildren server run ∧
          AcceptsProjection server database run audits outbox)
  | .getRun id => server.Accepts [.text id]
  | .updateRunAtomic run expectedVersion audits outbox =>
    server.Accepts (updateRunArguments (run.advanced expectedVersion)
        expectedVersion) ∧
      (database.Current run expectedVersion →
        0 < nextVersion expectedVersion ∧
        AcceptsChildren server (run.advanced expectedVersion) ∧
        AcceptsProjection server database
          (run.advanced expectedVersion) audits outbox)
  | .reserveExecution record audit outbox =>
    server.Accepts (insertExecutionArguments { record with stateVersion := 1 }) ∧
      ((∃ row ∈ database.executions.rows, row.adapterKey = record.adapterKey) ∧
          record.payload.decoded ≠ none ∨
        (∀ row ∈ database.executions.rows, row.id ≠ record.id) ∧ Plain record ∧
          AcceptsEvents server [audit] [outbox])
  | .completeExecution record expectedVersion audit outbox =>
    server.Accepts (updateExecutionArguments record expectedVersion) ∧
      record.payload.decoded ≠ none ∧
      ∃ row ∈ database.executions.rows, row.adapterKey = record.adapterKey ∧
        (row.stateVersion = expectedVersion → 0 < nextVersion expectedVersion ∧
          SameExecution row record ∧ Plain record ∧ AcceptsEvents server [audit] [outbox])
  | .getExecution adapter idempotencyKey =>
    server.Accepts [.text adapter, .text idempotencyKey]
  | .markOutboxPublished id publishedAt =>
    server.Accepts [.text id, .timestamptz publishedAt] ∧
      ∀ row ∈ database.outboxEvents.rows, row.id = id →
        row.publishedAt = none ∧ server.Accepts [.integer (row.attempts + 1)]
  | .reserveRunnerAction record audit =>
    server.Accepts (insertActionArguments { record with stateVersion := 1 }) ∧
      server.Accepts (insertAuditArguments audit)
  | .getRunnerAction tenantID runnerGroup nonce =>
    server.Accepts [.text tenantID, .text runnerGroup, .text nonce]
  | .completeRunnerAction record expected audit =>
    server.Accepts (updateActionArguments record expected) ∧
      ∃ row ∈ database.runnerJournal.rows, row.primaryKey = record.primaryKey ∧
        (row.stateVersion = expected → 0 < nextVersion expected ∧ SameAction row record ∧
          record.status ≠ none ∧ server.Accepts (insertAuditArguments audit))

instance (call : StoreCall) : Decidable (database.Compatible server call) := by
  cases call <;> dsimp only [Compatible] <;> infer_instance

/-- A condition on calls holds for each call of a sequence, in the database before it. -/
def Throughout (condition : Database → StoreCall → Prop) : Database → List StoreCall → Prop
  | _, [] => True
  | database, call :: rest =>
    condition database call ∧ Throughout condition (database.perform server call).2 rest

instance decidableThroughout (condition : Database → StoreCall → Prop)
    [∀ database call, Decidable (condition database call)] :
    (database : Database) → (calls : List StoreCall) →
      Decidable (Throughout server condition database calls)
  | _, [] => .isTrue trivial
  | database, call :: rest =>
    have := decidableThroughout condition (database.perform server call).2 rest
    inferInstanceAs (Decidable (_ ∧ _))

end Database

end Themisy.Store
