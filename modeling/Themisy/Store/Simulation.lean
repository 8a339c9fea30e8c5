import Themisy.Store.Calls

/-!
# The database simulates the store in memory

A run, an execution and a runner action are selected from their tables by the
keys under which the maps hold them, the request identifiers and idempotency
keys lead to the same records, and the outbox holds the same events, of which
the same are pending. Each of these parts of a store is related on its own.

The maps are keyed by texts which are joined with NUL characters. Since no column
can hold a NUL, such a key determines the columns it was joined from.
-/

namespace Themisy.Store

open Domain Protocol Interaction

/-- A text which can be a part of a key: it does not contain the separator. -/
def NulFree (text : String) : Prop :=
  '\x00' ∉ text.toList

theorem append_separator_inj {Item : Type} {separator : Item} {first second : List Item}
    {rest later : List Item} (firstFree : separator ∉ first) (secondFree : separator ∉ second) :
    first ++ separator :: rest = second ++ separator :: later ↔ first = second ∧ rest = later := by
  induction first generalizing second with
  | nil =>
    cases second with
    | nil => simp
    | cons item second => simp_all
  | cons item first ih =>
    cases second with
    | nil => simp_all [eq_comm]
    | cons other second =>
      simp only [List.mem_cons, not_or] at firstFree secondFree
      simp [ih firstFree.2 secondFree.2, and_assoc]

theorem toList_separated (left right : String) :
    (left ++ "\x00" ++ right).toList = left.toList ++ '\x00' :: right.toList := by
  simp [String.toList_append]

theorem separated_inj {left right otherLeft otherRight : String} (free : NulFree left)
    (otherFree : NulFree otherLeft) :
    left ++ "\x00" ++ right = otherLeft ++ "\x00" ++ otherRight ↔
      left = otherLeft ∧ right = otherRight := by
  rw [← String.toList_inj, toList_separated, toList_separated, append_separator_inj free otherFree,
    String.toList_inj, String.toList_inj]

theorem executionKey_inj {adapter key otherAdapter otherKey : String} (free : NulFree adapter)
    (otherFree : NulFree otherAdapter) :
    executionKey adapter key = executionKey otherAdapter otherKey ↔
      [adapter, key] = [otherAdapter, otherKey] := by
  simp only [executionKey, separated_inj free otherFree, List.cons.injEq, and_true]

theorem runnerNonceKey_inj {tenant runnerGroup nonce otherTenant otherGroup otherNonce : String}
    (free : NulFree tenant) (groupFree : NulFree runnerGroup) (otherFree : NulFree otherTenant)
    (otherGroupFree : NulFree otherGroup) :
    runnerNonceKey tenant runnerGroup nonce = runnerNonceKey otherTenant otherGroup otherNonce ↔
      [tenant, runnerGroup, nonce] = [otherTenant, otherGroup, otherNonce] := by
  have nested : ∀ first second third : String,
      runnerNonceKey first second third = first ++ "\x00" ++ (second ++ "\x00" ++ third) := by
    intro first second third
    simp only [runnerNonceKey, String.append_assoc]
  simp only [nested, separated_inj free otherFree, separated_inj groupFree otherGroupFree,
    List.cons.injEq, and_true]

namespace Server

variable {server : Server} {arguments : List Argument}

theorem execute_of_accepts (accepts : server.Accepts arguments) :
    server.execute arguments = .ok () := by
  rw [execute, require, if_pos accepts]

theorem Accepts.nulFree (accepts : server.Accepts arguments) {value : String}
    (member : Argument.text value ∈ arguments) : NulFree value :=
  server.not_mem_of_represents value (accepts _ member)

theorem Accepts.of_subset {others : List Argument} (accepts : server.Accepts arguments)
    (subset : ∀ argument ∈ others, argument ∈ arguments) : server.Accepts others :=
  fun argument member => accepts argument (subset argument member)

end Server

/-- The table of runs holds the runs and the index of their requests. -/
structure RunsAgree (runs : GoMap String ReleaseRun) (index : GoMap String String)
    (table : Table [RunRow.primaryKey, RunRow.requestKey, RunRow.workflowKey]) : Prop where
  runs : ∀ id, runs.get? id = (table.select fun row => row.primaryKey = [id]).map RunRow.payload
  requests : ∀ requestID, index.get? requestID =
    (table.select fun row => row.requestKey = [requestID]).map RunRow.id
  versions : ∀ row ∈ table.rows, row.stateVersion = row.payload.stateVersion

variable {version : ℤ} {outbox : List OutboxEvent} {audits : List AuditEvent}

namespace RunsAgree

variable {runs : GoMap String ReleaseRun} {index : GoMap String String}
  {table next : Table [RunRow.primaryKey, RunRow.requestKey, RunRow.workflowKey]}
  {run : ReleaseRun} {row : RunRow}

theorem insert (agree : RunsAgree runs index table)
    (inserted : table.insert (.ofRun run) = some next) :
    RunsAgree (runs.set run.id run) (index.set run.requestID run.id) next where
  runs id := by
    have key : [id] = RunRow.primaryKey (.ofRun run) ↔ id = run.id := by
      simp [RunRow.primaryKey, RunRow.ofRun]
    rw [GoMap.get?_set, Table.select_key_of_insert (by simp) inserted, apply_ite (Option.map _),
      ← agree.runs]
    simp only [key]
    rfl
  requests requestID := by
    have key : [requestID] = RunRow.requestKey (.ofRun run) ↔ requestID = run.requestID := by
      simp [RunRow.requestKey, RunRow.ofRun]
    rw [GoMap.get?_set, Table.select_key_of_insert (by simp) inserted, apply_ite (Option.map _),
      ← agree.requests]
    simp only [key]
    rfl
  versions := Table.forall_of_insert inserted agree.versions rfl

theorem update (agree : RunsAgree runs index table)
    (selected : table.select (fun row => row.primaryKey = [run.id]) = some row)
    (current : row.stateVersion = version) :
    RunsAgree (runs.set run.id run) index
      (table.update (Database.isCurrentRun run.id version) (Database.replacedRun run)
        (Database.replacedRun_keeps run)) where
  runs id := by
    have holds := Database.isCurrentRun_iff.mpr ⟨Table.key_of_select selected, current⟩
    rw [GoMap.get?_set, Table.select_key_of_update (by simp)
      (fun _ holds => (Database.isCurrentRun_iff.mp holds).1) selected holds,
      apply_ite (Option.map _), ← agree.runs]
    simp only [List.cons.injEq, and_true]
    rfl
  requests requestID := by
    rw [agree.requests, Table.map_select_update]
    · intro row
      rfl
    · intro row
      rfl
  versions := Table.forall_update agree.versions fun _ _ => rfl

end RunsAgree

/-- The table of executions holds the executions under their keys. -/
structure ExecutionsAgree (executions : GoMap String ExecutionRecord)
    (table : Table [ExecutionRecord.primaryKey, ExecutionRecord.adapterKey]) : Prop where
  records : ∀ adapter idempotencyKey, NulFree adapter →
    executions.get? (executionKey adapter idempotencyKey) =
      table.select fun row => row.adapterKey = [adapter, idempotencyKey]
  free : ∀ row ∈ table.rows, NulFree row.adapter

namespace ExecutionsAgree

variable {executions : GoMap String ExecutionRecord}
  {table next : Table [ExecutionRecord.primaryKey, ExecutionRecord.adapterKey]}
  {record row : ExecutionRecord}

theorem insert (agree : ExecutionsAgree executions table) (free : NulFree record.adapter)
    (inserted : table.insert record = some next) :
    ExecutionsAgree (executions.set record.mapKey record)
      next where
  records adapter idempotencyKey otherFree := by
    rw [GoMap.get?_set, Table.select_key_of_insert (by simp) inserted,
      agree.records adapter idempotencyKey otherFree]
    simp only [executionKey_inj otherFree free]
    rfl
  free := Table.forall_of_insert inserted agree.free free

theorem update (agree : ExecutionsAgree executions table) (free : NulFree record.adapter)
    (selected : table.select (fun row => row.adapterKey = record.adapterKey) = some row)
    (current : row.stateVersion = version)
    (completed : Database.completedExecution record (nextVersion version) row =
      record.advanced version) :
    ExecutionsAgree
      (executions.set record.mapKey (record.advanced version))
      (table.update (Database.isCurrentExecution record version)
        (Database.completedExecution record (nextVersion version))
        (Database.completedExecution_keeps record (nextVersion version))) where
  records adapter idempotencyKey otherFree := by
    have holds := Database.isCurrentExecution_iff.mpr ⟨Table.key_of_select selected, current⟩
    rw [GoMap.get?_set, Table.select_key_of_update (by simp)
      (fun _ holds => (Database.isCurrentExecution_iff.mp holds).1) selected holds,
      agree.records adapter idempotencyKey otherFree, completed]
    simp only [executionKey_inj otherFree free]
    rfl
  free := Table.forall_update agree.free fun _ free => free

end ExecutionsAgree

/-- The journal holds the actions and the index of their idempotency keys. -/
structure JournalAgree (actions : GoMap String RunnerActionRecord) (index : GoMap String String)
    (table : Table [RunnerActionRecord.primaryKey, RunnerActionRecord.requestKey]) : Prop where
  records : ∀ tenantID runnerGroup nonce, NulFree tenantID → NulFree runnerGroup →
    actions.get? (runnerNonceKey tenantID runnerGroup nonce) =
      table.select fun row => row.primaryKey = [tenantID, runnerGroup, nonce]
  requests : ∀ tenantID runnerGroup key, NulFree tenantID → NulFree runnerGroup →
    index.get? (runnerIdempotencyKey tenantID runnerGroup key) =
      (table.select fun row => row.requestKey = [tenantID, runnerGroup, key]).map
        fun row => row.nonceKey
  free : ∀ row ∈ table.rows, NulFree row.tenantID ∧ NulFree row.runnerGroup

namespace JournalAgree

variable {actions : GoMap String RunnerActionRecord} {index : GoMap String String}
  {table next : Table [RunnerActionRecord.primaryKey, RunnerActionRecord.requestKey]}
  {record row : RunnerActionRecord}

section

variable (agree : JournalAgree actions index table)
  (free : NulFree record.tenantID ∧ NulFree record.runnerGroup)

include agree free

theorem insert (inserted : table.insert record = some next) :
    JournalAgree
      (actions.set record.nonceKey record)
      (index.set record.claimKey record.nonceKey) next where
  records tenantID runnerGroup nonce tenantFree groupFree := by
    rw [GoMap.get?_set, Table.select_key_of_insert (by simp) inserted,
      agree.records tenantID runnerGroup nonce tenantFree groupFree]
    simp only [runnerNonceKey_inj tenantFree groupFree free.1 free.2]
    rfl
  requests tenantID runnerGroup key tenantFree groupFree := by
    have keys : runnerIdempotencyKey tenantID runnerGroup key =
        record.claimKey ↔ _ :=
      runnerNonceKey_inj tenantFree groupFree free.1 free.2
    rw [GoMap.get?_set, Table.select_key_of_insert (by simp) inserted, apply_ite (Option.map _),
      agree.requests tenantID runnerGroup key tenantFree groupFree]
    simp only [keys]
    rfl
  free := Table.forall_of_insert inserted agree.free free

theorem update
    (selected : table.select (fun row => row.primaryKey = record.primaryKey) = some row)
    (current : row.stateVersion = version)
    (completed : Database.completedAction record (nextVersion version) row =
      record.advanced version) :
    JournalAgree
      (actions.set record.nonceKey (record.advanced version)) index
      (table.update (Database.isCurrentAction record version)
        (Database.completedAction record (nextVersion version))
        (Database.completedAction_keeps record (nextVersion version))) where
  records tenantID runnerGroup nonce tenantFree groupFree := by
    have holds := Database.isCurrentAction_iff.mpr ⟨Table.key_of_select selected, current⟩
    rw [GoMap.get?_set, Table.select_key_of_update (by simp)
      (fun _ holds => (Database.isCurrentAction_iff.mp holds).1) selected holds,
      agree.records tenantID runnerGroup nonce tenantFree groupFree, completed]
    simp only [runnerNonceKey_inj tenantFree groupFree free.1 free.2]
    rfl
  requests tenantID runnerGroup key tenantFree groupFree := by
    rw [agree.requests tenantID runnerGroup key tenantFree groupFree, Table.map_select_update]
    · intro row
      rfl
    · intro row
      rfl
  free := Table.forall_update agree.free fun _ free => free

end

end JournalAgree

/-- The identifier of an event and, while it is not published, its attempts. -/
def pending (event : OutboxEvent) : String × Option ℤ :=
  (event.id, if event.publishedAt = none then some event.attempts else none)

/-- The event with the identifier is no longer pending. -/
def settle (id : String) (entry : String × Option ℤ) : String × Option ℤ :=
  if entry.1 = id then (entry.1, none) else entry

/-- Marking an event settles its entry, if there is one. -/
theorem markPublished_cases (id : String) (publishedAt : Time) (events : List OutboxEvent)
    (distinct : (events.map OutboxEvent.id).Nodup) :
    (id ∉ events.map OutboxEvent.id ∧
        Memory.markPublished id publishedAt events = .error .notFound) ∨
      id ∈ events.map OutboxEvent.id ∧ ∃ marked,
        Memory.markPublished id publishedAt events = .ok marked ∧
        marked.map pending = (events.map pending).map (settle id) := by
  induction events with
  | nil => exact Or.inl ⟨by simp, rfl⟩
  | cons event rest ih =>
    rw [List.map_cons, List.nodup_cons] at distinct
    by_cases same : event.id = id
    · subst same
      refine Or.inr ⟨by simp, _, by rw [Memory.markPublished, if_pos rfl], ?_⟩
      have others : (rest.map pending).map (settle event.id) = rest.map pending := by
        rw [List.map_map]
        refine List.map_congr_left fun other member => ?_
        have differs : other.id ≠ event.id := fun equal =>
          distinct.1 (equal ▸ List.mem_map_of_mem member)
        simp [settle, pending, differs]
      simp [others, pending, settle]
    · have step : Memory.markPublished id publishedAt (event :: rest) =
          (Memory.markPublished id publishedAt rest).map (event :: ·) := by
        rw [Memory.markPublished, if_neg same]
      rcases ih distinct.2 with ⟨absent, missing⟩ | ⟨present, marked, published, entries⟩
      · refine Or.inl ⟨by simp [absent, Ne.symm same], ?_⟩
        rw [step, missing]
        rfl
      · refine Or.inr ⟨List.mem_cons_of_mem _ present, event :: marked, ?_, ?_⟩
        · rw [step, published]
          rfl
        · simp [entries, settle, pending, same]

theorem pending_touch (id : String) (publishedAt : Time) (rows : List OutboxEvent) :
    (rows.map (Table.touch (fun row => row.id = id && row.publishedAt = none)
        (Database.publishedEvent publishedAt))).map pending =
      (rows.map pending).map (settle id) := by
  rw [List.map_map, List.map_map]
  refine List.map_congr_left fun row _ => ?_
  by_cases same : row.id = id <;> by_cases unpublished : row.publishedAt = none <;>
    simp [Table.touch, Database.publishedEvent, pending, settle, same, unpublished]

namespace Database

variable {server : Server} {database next : Database}

/-- The events were added to their tables, and nothing else was changed. -/
structure Appended (database next : Database) (audits : List AuditEvent)
    (outbox : List OutboxEvent) : Prop where
  runs : next.releaseRuns = database.releaseRuns
  executions : next.executions = database.executions
  journal : next.runnerJournal = database.runnerJournal
  audits : next.auditEvents.rows.map AuditEvent.id =
    database.auditEvents.rows.map AuditEvent.id ++ audits.map AuditEvent.id
  outbox : next.outboxEvents.rows.map pending =
    database.outboxEvents.rows.map pending ++ outbox.map pending

theorem Appended.trans {middle : Database} {laterAudits : List AuditEvent}
    {laterOutbox : List OutboxEvent} (first : Appended database middle audits outbox)
    (second : Appended middle next laterAudits laterOutbox) :
    Appended database next (audits ++ laterAudits) (outbox ++ laterOutbox) where
  runs := second.runs.trans first.runs
  executions := second.executions.trans first.executions
  journal := second.journal.trans first.journal
  audits := by rw [second.audits, first.audits, List.map_append, List.append_assoc]
  outbox := by rw [second.outbox, first.outbox, List.map_append, List.append_assoc]

theorem map_id_eq (events : List OutboxEvent) :
    events.map OutboxEvent.id = (events.map pending).map Prod.fst := by
  rw [List.map_map]
  rfl

theorem Appended.outboxIDs (appended : Appended database next audits outbox) :
    next.outboxEvents.rows.map OutboxEvent.id =
      database.outboxEvents.rows.map OutboxEvent.id ++ outbox.map OutboxEvent.id := by
  simp only [map_id_eq, appended.outbox, List.map_append]

theorem insertAudit_appended {event : AuditEvent}
    (accepts : server.Accepts (insertAuditArguments event))
    (fresh : event.id ∉ database.auditEvents.rows.map AuditEvent.id) :
    ∃ next, insertAudit server database event = .ok next ∧ Appended database next [event] [] := by
  have free : ∀ key ∈ [AuditEvent.id],
      key { event with timestamp := microseconds event.timestamp } ∉
        database.auditEvents.rows.map key := by
    simpa using fresh
  obtain ⟨auditEvents, inserted⟩ := Table.exists_insert free
  refine ⟨{ database with auditEvents }, ?_, ⟨rfl, rfl, rfl, ?_, by simp⟩⟩
  · simp only [insertAudit, Server.execute_of_accepts accepts, inserted]
    rfl
  · simp [Table.rows_of_insert inserted]

variable {event : OutboxEvent}

theorem insertOutbox_appended (accepts : server.Accepts (insertOutboxArguments event))
    (attempts : 0 ≤ event.attempts)
    (fresh : event.id ∉ database.outboxEvents.rows.map OutboxEvent.id) :
    ∃ next, insertOutbox server database event = .ok next ∧ Appended database next [] [event] := by
  have free : ∀ key ∈ [OutboxEvent.id],
      key { event with
        availableAt := microseconds event.availableAt
        publishedAt := event.publishedAt.map microseconds
        createdAt := microseconds event.createdAt } ∉ database.outboxEvents.rows.map key := by
    simpa using fresh
  obtain ⟨outboxEvents, inserted⟩ := Table.exists_insert free
  refine ⟨{ database with outboxEvents }, ?_, ⟨rfl, rfl, rfl, by simp, ?_⟩⟩
  · simp only [insertOutbox, Server.execute_of_accepts accepts, require, if_pos attempts, inserted]
    rfl
  · simp [Table.rows_of_insert inserted, pending]

theorem FreshAudits.not_mem {event : AuditEvent} {rest : List AuditEvent}
    (fresh : database.FreshAudits (event :: rest)) :
    event.id ∉ database.auditEvents.rows.map AuditEvent.id := by
  rw [FreshAudits, List.map_append, List.map_cons] at fresh
  intro present
  exact (List.disjoint_of_nodup_append fresh) present (by simp)

theorem FreshOutbox.not_mem {rest : List OutboxEvent}
    (fresh : database.FreshOutbox (event :: rest)) :
    event.id ∉ database.outboxEvents.rows.map OutboxEvent.id := by
  rw [FreshOutbox, List.map_append, List.map_cons] at fresh
  intro present
  exact (List.disjoint_of_nodup_append fresh) present (by simp)

theorem foldlM_insertAudit (accepts : ∀ event ∈ audits, server.Accepts (insertAuditArguments event))
    (fresh : database.FreshAudits audits) :
    ∃ next, audits.foldlM (insertAudit server) database = .ok next ∧
      Appended database next audits [] := by
  induction audits generalizing database with
  | nil => exact ⟨database, rfl, ⟨rfl, rfl, rfl, by simp, by simp⟩⟩
  | cons event rest ih =>
    rw [List.forall_mem_cons] at accepts
    obtain ⟨middle, inserted, first⟩ := insertAudit_appended accepts.1 fresh.not_mem
    have freshLater : middle.FreshAudits rest := by
      rw [FreshAudits, List.map_append, first.audits, List.append_assoc]
      rw [FreshAudits, List.map_append, List.map_cons] at fresh
      exact fresh
    obtain ⟨next, later, second⟩ := ih accepts.2 freshLater
    refine ⟨next, ?_, first.trans second⟩
    rw [List.foldlM_cons, inserted]
    exact later

theorem foldlM_insertOutbox
    (accepts : ∀ event ∈ outbox, server.Accepts (insertOutboxArguments event) ∧
      0 ≤ event.attempts) (fresh : database.FreshOutbox outbox) :
    ∃ next, outbox.foldlM (insertOutbox server) database = .ok next ∧
      Appended database next [] outbox := by
  induction outbox generalizing database with
  | nil => exact ⟨database, rfl, ⟨rfl, rfl, rfl, by simp, by simp⟩⟩
  | cons event rest ih =>
    rw [List.forall_mem_cons] at accepts
    obtain ⟨middle, inserted, first⟩ :=
      insertOutbox_appended accepts.1.1 accepts.1.2 fresh.not_mem
    have freshLater : middle.FreshOutbox rest := by
      rw [FreshOutbox, List.map_append, first.outboxIDs, List.append_assoc]
      rw [FreshOutbox, List.map_append, List.map_cons] at fresh
      exact fresh
    obtain ⟨next, later, second⟩ := ih accepts.2 freshLater
    refine ⟨next, ?_, first.trans second⟩
    rw [List.foldlM_cons, inserted]
    exact later

theorem insertEvents_appended (accepts : AcceptsEvents server audits outbox)
    (freshAudits : database.FreshAudits audits) (freshOutbox : database.FreshOutbox outbox) :
    ∃ next, insertEvents server database audits outbox = .ok next ∧
      Appended database next audits outbox := by
  obtain ⟨middle, audited, first⟩ := foldlM_insertAudit accepts.1 freshAudits
  have freshLater : middle.FreshOutbox outbox := by
    rw [FreshOutbox, List.map_append, first.outboxIDs, List.map_nil, List.append_nil,
      ← List.map_append]
    exact freshOutbox
  obtain ⟨next, added, second⟩ := foldlM_insertOutbox accepts.2 freshLater
  refine ⟨next, ?_, ?_⟩
  · rw [insertEvents, audited]
    exact added
  · simpa using first.trans second

theorem syncChildren_eq_ok {run : ReleaseRun} (accepts : AcceptsChildren server run)
    (positive : 0 < run.stateVersion) : syncChildren server run = .ok () := by
  rw [syncChildren, forM_eq_ok]
  intro step member
  obtain ⟨written, phase, decision, approval⟩ := accepts step member
  simp only [syncStep, Server.execute_of_accepts written, require,
    if_pos (And.intro phase positive)]
  cases policyEq : step.policy with
  | none =>
    cases approvalEq : step.approval with
    | none => rfl
    | some granted => exact Server.execute_of_accepts (approval granted approvalEq)
  | some policy =>
    simp only [Server.execute_of_accepts (decision policy policyEq)]
    cases approvalEq : step.approval with
    | none => rfl
    | some granted => exact Server.execute_of_accepts (approval granted approvalEq)

end Database

/-- The database holds what the memory holds. -/
structure Simulates (memory : Memory) (database : Database) : Prop where
  runs : RunsAgree memory.runs memory.runByRequestID database.releaseRuns
  executions : ExecutionsAgree memory.executions database.executions
  journal : JournalAgree memory.runnerActions memory.runnerByKey database.runnerJournal
  outbox : memory.outbox.map pending = database.outboxEvents.rows.map pending
  available : memory.journalError = none

variable {database next : Database} {memory : Memory}

theorem Simulates.append (simulates : Simulates memory database)
    (appended : database.Appended next audits outbox) :
    Simulates (memory.appendAtomic audits outbox) next := by
  obtain ⟨table, eq⟩ := memory.exists_appendAtomic_eq audits outbox
  rw [eq]
  constructor
  · rw [appended.runs]
    exact simulates.runs
  · rw [appended.executions]
    exact simulates.executions
  · rw [appended.journal]
    exact simulates.journal
  · rw [List.map_append, simulates.outbox, appended.outbox]
  · exact simulates.available

theorem Simulates.appendAudit {audit : AuditEvent} (simulates : Simulates memory database)
    (appended : database.Appended next [audit] []) : Simulates (memory.appendAudit audit) next where
  runs := by
    rw [appended.runs]
    exact simulates.runs
  executions := by
    rw [appended.executions]
    exact simulates.executions
  journal := by
    rw [appended.journal]
    exact simulates.journal
  outbox := by
    rw [appended.outbox, List.map_nil, List.append_nil]
    exact simulates.outbox
  available := simulates.available

end Themisy.Store
