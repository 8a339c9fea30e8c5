import Themisy.Store.Simulation

/-!
# The two stores agree

Every operation answers alike in both stores, and afterwards the database still
simulates the store in memory, provided the call is admissible and compatible.
An operation changes one part of a store and appends events, so each proof
consists of the change of that part and of `Simulates.append`.
-/

namespace Themisy.Store

open Domain Protocol Interaction

/-- Both operations answer alike, and the database still simulates the store. -/
def Agreeing {Value : Type} (ofMemory : Except StoreError Value × Memory)
    (ofDatabase : Except StoreError Value × Database) : Prop :=
  ofMemory.1 = ofDatabase.1 ∧ Simulates ofMemory.2 ofDatabase.2

variable {server : Server} {memory : Memory} {database : Database} {expectedVersion : ℤ}
  {row : RunnerActionRecord}

section Runs

variable {run : ReleaseRun} {audits : List AuditEvent} {outbox : List OutboxEvent}

theorem getRun_agree (simulates : Simulates memory database) {id : String}
    (accepts : server.Accepts [.text id]) : memory.getRun id = database.getRun server id := by
  simp only [Memory.getRun, Database.getRun, Server.execute_of_accepts accepts,
    simulates.runs.runs id]
  cases database.releaseRuns.select fun row => row.primaryKey = [id] with
  | none | some row => rfl

theorem Memory.createRunAtomic_claimed {id : String} {existing : ReleaseRun}
    (claimed : memory.runByRequestID.get? run.requestID = some id)
    (stored : memory.runs.get? id = some existing) :
    memory.createRunAtomic run audits outbox = .ok ((existing, false), memory) := by
  unfold createRunAtomic
  split
  · next other found =>
    rw [claimed] at found
    cases found
    simp [indexedRun, stored]
  · next unclaimed =>
    rw [claimed] at unclaimed
    cases unclaimed

theorem Memory.createRunAtomic_new (unclaimed : memory.runByRequestID.get? run.requestID = none)
    (absent : memory.runs.get? run.id = none) :
    memory.createRunAtomic run audits outbox =
      .ok ((run, true),
        (memory.insertRun run).appendAtomic audits (Memory.appendProjection outbox run)) := by
  unfold createRunAtomic
  split
  · next other found =>
    rw [unclaimed] at found
    cases found
  · rw [require, if_pos absent]
    rfl

theorem Database.select_of_unclaimed {requestID : String}
    (unclaimed : ¬database.Claimed requestID) :
    database.releaseRuns.select (fun row => row.requestKey = [requestID]) = none := by
  rw [Table.select_eq_none_iff]
  intro row present
  simp only [RunRow.requestKey, List.cons.injEq, and_true, decide_eq_false_iff_not]
  exact fun same => unclaimed ⟨row, present, same⟩

theorem Database.createRunAtomic_claimed {row : RunRow}
    (compatible : database.Compatible server (.createRunAtomic run audits outbox))
    (selected : database.releaseRuns.select (fun row => row.requestKey = [run.requestID]) =
      some row) :
    database.createRunAtomic server run audits outbox = .ok ((row.payload, false), database) := by
  obtain ⟨accepts, positive, -⟩ := compatible
  have requestID : (withWorkflowID run).requestID = run.requestID := by
    unfold withWorkflowID
    split <;> rfl
  have version : 0 < (withWorkflowID run).stateVersion := by
    unfold withWorkflowID
    split <;> exact positive
  have refused : database.releaseRuns.insert (.ofRun (withWorkflowID run)) = none := by
    refine Table.insert_eq_none_iff.mpr ⟨RunRow.requestKey, by simp, row,
      (Table.mem_of_select selected).1, ?_⟩
    rw [Table.key_of_select selected, ← requestID]
    rfl
  have reads : server.Accepts [.text run.requestID] :=
    accepts.of_subset (by simp [insertRunArguments, requestID])
  simp only [createRunAtomic, Server.execute_of_accepts accepts, require, if_pos version, refused,
    getRunByRequest, requestID, Server.execute_of_accepts reads, selected]
  rfl

theorem Database.createRunAtomic_new
    (admissible : database.Admissible (.createRunAtomic run audits outbox))
    (compatible : database.Compatible server (.createRunAtomic run audits outbox))
    (unclaimed : ¬database.Claimed run.requestID) :
    ∃ releaseRuns next, database.releaseRuns.insert (.ofRun run) = some releaseRuns ∧
      Appended { database with releaseRuns } next audits (Memory.appendProjection outbox run) ∧
      database.createRunAtomic server run audits outbox = .ok ((run, true), next) := by
  obtain ⟨freshAudits, -, -, whenNew⟩ := admissible
  obtain ⟨workflow, workflows⟩ := whenNew unclaimed
  obtain ⟨accepts, positive, known⟩ := compatible
  obtain ⟨ids, children, events, freshOutbox⟩ := known.resolve_left unclaimed
  have named : withWorkflowID run = run := if_neg workflow
  rw [named] at accepts
  have fresh : ∀ key ∈ [RunRow.primaryKey, RunRow.requestKey, RunRow.workflowKey],
      key (.ofRun run) ∉ database.releaseRuns.rows.map key := by
    simp only [List.mem_map, not_exists, not_and, List.forall_mem_cons, RunRow.primaryKey,
      RunRow.requestKey, RunRow.workflowKey, RunRow.ofRun, List.cons.injEq, and_true]
    exact ⟨ids, fun row present same => unclaimed ⟨row, present, same⟩, workflows, by simp⟩
  obtain ⟨releaseRuns, inserted⟩ := Table.exists_insert fresh
  have freshAudits : Database.FreshAudits { database with releaseRuns } audits := freshAudits
  obtain ⟨next, added, appended⟩ := insertEvents_appended events freshAudits freshOutbox
  refine ⟨releaseRuns, next, inserted, appended, ?_⟩
  simp only [createRunAtomic, named, Server.execute_of_accepts accepts, require, if_pos positive,
    inserted, syncChildren_eq_ok children positive, added]
  rfl

theorem createRunAtomic_agree (simulates : Simulates memory database)
    (admissible : database.Admissible (.createRunAtomic run audits outbox))
    (compatible : database.Compatible server (.createRunAtomic run audits outbox)) :
    Agreeing (memory.perform (.createRunAtomic run audits outbox))
      (database.perform server (.createRunAtomic run audits outbox)) := by
  by_cases claimed : database.Claimed run.requestID
  · obtain ⟨row, present, same⟩ := claimed
    have byRequest : database.releaseRuns.select
        (fun row => row.requestKey = [run.requestID]) = some row :=
      Table.select_key (by simp) present (by rw [RunRow.requestKey, same])
    have byID : database.releaseRuns.select (fun other => other.primaryKey = [row.id]) =
        some row := Table.select_key (by simp) present rfl
    have index := simulates.runs.requests run.requestID
    have stored := simulates.runs.runs row.id
    rw [byRequest] at index
    rw [byID] at stored
    rw [Memory.perform, Memory.createRunAtomic_claimed index stored, Database.perform,
      Database.createRunAtomic_claimed compatible byRequest]
    exact ⟨rfl, simulates⟩
  · obtain ⟨releaseRuns, next, inserted, appended, created⟩ :=
      Database.createRunAtomic_new admissible compatible claimed
    obtain ⟨-, -, known⟩ := compatible
    have unclaimed := simulates.runs.requests run.requestID
    rw [Database.select_of_unclaimed claimed] at unclaimed
    have absent : memory.runs.get? run.id = none := by
      rw [simulates.runs.runs, Option.map_eq_none_iff, Table.select_eq_none_iff]
      intro row present
      simpa [RunRow.primaryKey] using (known.resolve_left claimed).1 row present
    rw [Memory.perform, Memory.createRunAtomic_new unclaimed absent, Database.perform, created]
    have changed : Simulates (memory.insertRun run) { database with releaseRuns } :=
      { simulates with runs := simulates.runs.insert inserted }
    exact ⟨rfl, changed.append appended⟩

theorem Memory.updateRunAtomic_current {current : ReleaseRun}
    (present : memory.runs.get? run.id = some current) :
    memory.updateRunAtomic run expectedVersion audits outbox =
      if current.stateVersion = expectedVersion then
        .ok (run.advanced expectedVersion,
          (memory.replaceRun (run.advanced expectedVersion)).appendAtomic audits
            (Memory.appendProjection outbox (run.advanced expectedVersion)))
      else .error .conflict := by
  simp only [updateRunAtomic, present, require]
  split <;> rfl

theorem Database.affected_isCurrentRun :
    database.releaseRuns.affected (isCurrentRun run.id expectedVersion) = 0 ↔
      ∀ row, database.releaseRuns.select (fun row => row.primaryKey = [run.id]) = some row →
        row.stateVersion ≠ expectedVersion := by
  rw [Table.affected_eq_zero_iff_of_fixes (by simp) fun _ holds => (isCurrentRun_iff.mp holds).1]
  refine forall₂_congr fun row selected => ?_
  simp [isCurrentRun, Table.key_of_select selected]

theorem Database.updateRunAtomic_current {row : RunRow}
    (admissible : database.Admissible (.updateRunAtomic run expectedVersion audits outbox))
    (compatible : database.Compatible server (.updateRunAtomic run expectedVersion audits outbox))
    (selected : database.releaseRuns.select (fun row => row.primaryKey = [run.id]) = some row)
    (current : row.stateVersion = expectedVersion) :
    ∃ next, Appended
        (database.replaceRun (run.advanced expectedVersion) expectedVersion) next
        audits (Memory.appendProjection outbox (run.advanced expectedVersion)) ∧
      database.updateRunAtomic server run expectedVersion audits outbox =
        .ok (run.advanced expectedVersion, next) := by
  have isCurrent : database.Current run expectedVersion := by
    obtain ⟨present, key⟩ := Table.mem_of_select selected
    exact ⟨row, present, by simpa [RunRow.primaryKey] using key, current⟩
  obtain ⟨freshAudits, -, -⟩ := admissible
  obtain ⟨accepts, accepted⟩ := compatible
  obtain ⟨positive, children, events, freshOutbox⟩ := accepted isCurrent
  have affected : database.releaseRuns.affected (isCurrentRun run.id expectedVersion) ≠ 0 :=
    fun none => affected_isCurrentRun.mp none row selected current
  have freshAudits : Database.FreshAudits
      (database.replaceRun (run.advanced expectedVersion) expectedVersion)
      audits := freshAudits
  obtain ⟨next, added, appended⟩ := insertEvents_appended events freshAudits freshOutbox
  refine ⟨next, appended, ?_⟩
  simp only [updateRunAtomic, Server.execute_of_accepts accepts, if_neg affected, require,
    if_pos positive, syncChildren_eq_ok children positive, added]
  rfl

theorem Database.updateRunAtomic_stale
    (compatible : database.Compatible server (.updateRunAtomic run expectedVersion audits outbox))
    (stale : ∀ row, database.releaseRuns.select (fun row => row.primaryKey = [run.id]) = some row →
      row.stateVersion ≠ expectedVersion) :
    database.updateRunAtomic server run expectedVersion audits outbox =
      .error (if (database.releaseRuns.select (fun row => row.primaryKey = [run.id])).isSome then
        .conflict else .notFound) := by
  simp only [updateRunAtomic, Server.execute_of_accepts compatible.1,
    if_pos (affected_isCurrentRun.mpr stale)]
  cases database.releaseRuns.select fun row => row.primaryKey = [run.id] with
  | none | some row => rfl

theorem updateRunAtomic_agree (simulates : Simulates memory database)
    (admissible : database.Admissible (.updateRunAtomic run expectedVersion audits outbox))
    (compatible : database.Compatible server (.updateRunAtomic run expectedVersion audits outbox)) :
    Agreeing (memory.perform (.updateRunAtomic run expectedVersion audits outbox))
      (database.perform server (.updateRunAtomic run expectedVersion audits outbox)) := by
  rw [Memory.perform, Database.perform]
  have stored := simulates.runs.runs run.id
  cases selected : database.releaseRuns.select fun row => row.primaryKey = [run.id] with
  | none =>
    rw [selected] at stored
    rw [Memory.updateRunAtomic, stored,
      Database.updateRunAtomic_stale compatible (by simp [selected]), selected]
    exact ⟨rfl, simulates⟩
  | some row =>
    rw [selected] at stored
    obtain ⟨present, key⟩ := Table.mem_of_select selected
    rw [Memory.updateRunAtomic_current stored, ← simulates.runs.versions row present]
    split
    · next current =>
      obtain ⟨next, appended, updated⟩ :=
        Database.updateRunAtomic_current admissible compatible selected current
      rw [updated]
      have changed : Simulates
          (memory.replaceRun (run.advanced expectedVersion))
          (database.replaceRun (run.advanced expectedVersion)
            expectedVersion) :=
        { simulates with runs := simulates.runs.update selected current }
      exact ⟨rfl, changed.append appended⟩
    · next moved =>
      rw [Database.updateRunAtomic_stale compatible (by simp [selected, moved]), selected]
      exact ⟨rfl, simulates⟩

end Runs

section Executions

variable {record : ExecutionRecord} {audit : AuditEvent} {outbox : OutboxEvent}

theorem getExecution_agree (simulates : Simulates memory database) {adapter idempotencyKey : String}
    (accepts : server.Accepts [.text adapter, .text idempotencyKey]) :
    memory.getExecution adapter idempotencyKey =
      database.getExecution server adapter idempotencyKey := by
  have free : NulFree adapter := accepts.nulFree (by simp)
  simp only [Memory.getExecution, Database.getExecution, Server.execute_of_accepts accepts,
    simulates.executions.records adapter idempotencyKey free]
  cases database.executions.select fun row => row.adapterKey = [adapter, idempotencyKey] with
  | none | some row => rfl

theorem Database.reserveExecution_taken {row : ExecutionRecord}
    (compatible : database.Compatible server (.reserveExecution record audit outbox))
    (selected : database.executions.select (fun row => row.adapterKey = record.adapterKey) =
      some row) :
    database.reserveExecution server record audit outbox = .ok ((row, false), database) := by
  obtain ⟨present, -⟩ := Table.mem_of_select selected
  have reserves : server.Accepts (insertExecutionArguments
      record.reserved) := compatible.1
  obtain ⟨payload, encoded⟩ : ∃ payload, record.payload.decoded = some payload := by
    rcases compatible.2 with ⟨-, encoded⟩ | ⟨-, plain, -⟩
    · exact Option.ne_none_iff_exists'.mp encoded
    · exact ⟨_, plain⟩
  have refused : database.executions.insert
      { record with
        payload
        status := some .reserved
        stateVersion := 1
        createdAt := microseconds record.createdAt
        updatedAt := microseconds record.updatedAt } = none :=
    Table.insert_eq_none_iff.mpr ⟨ExecutionRecord.adapterKey, by simp, row, present,
      Table.key_of_select selected⟩
  have reads : server.Accepts [.text record.adapter, .text record.idempotencyKey] :=
    reserves.of_subset (by simp [insertExecutionArguments])
  rw [ExecutionRecord.adapterKey] at selected
  simp only [reserveExecution, storedPayload, encoded, bind, Except.bind,
    Server.execute_of_accepts reserves, refused, getExecution, Server.execute_of_accepts reads,
    selected]
  rfl

theorem Database.reserveExecution_new
    (admissible : database.Admissible (.reserveExecution record audit outbox))
    (compatible : database.Compatible server (.reserveExecution record audit outbox))
    (absent : database.executions.select (fun row => row.adapterKey = record.adapterKey) = none) :
    ∃ executions next,
      database.executions.insert record.reserved =
        some executions ∧
      Appended { database with executions } next [audit] [outbox] ∧
      database.reserveExecution server record audit outbox =
        .ok ((record.reserved, true), next) := by
  obtain ⟨freshAudits, freshOutbox, owned, createdAt, updatedAt⟩ := admissible
  obtain ⟨accepts, known⟩ := compatible
  have reserves : server.Accepts (insertExecutionArguments
      record.reserved) := accepts
  have unused := Table.not_mem_of_select_eq_none absent
  obtain ⟨ids, plain, events⟩ := known.resolve_left fun ⟨⟨row, present, same⟩, _⟩ =>
    unused (List.mem_map.mpr ⟨row, present, same⟩)
  have fresh : ∀ key ∈ [ExecutionRecord.primaryKey, ExecutionRecord.adapterKey],
      key record.reserved ∉
        database.executions.rows.map key := by
    rw [List.forall_mem_cons, List.forall_mem_singleton]
    refine ⟨?_, unused⟩
    simp only [List.mem_map, not_exists, not_and, ExecutionRecord.primaryKey, List.cons.injEq,
      and_true]
    exact ids
  obtain ⟨executions, inserted⟩ := Table.exists_insert fresh
  have freshAudits : Database.FreshAudits { database with executions } [audit] := freshAudits
  obtain ⟨next, added, appended⟩ := insertEvents_appended events freshAudits freshOutbox
  refine ⟨executions, next, inserted, appended, ?_⟩
  rw [Precise] at createdAt updatedAt
  rw [Plain] at plain
  simp only [reserveExecution, storedPayload, plain, bind, Except.bind,
    Server.execute_of_accepts reserves, createdAt, updatedAt, inserted, require, if_pos owned,
    added]
  rfl

theorem reserveExecution_agree (simulates : Simulates memory database)
    (admissible : database.Admissible (.reserveExecution record audit outbox))
    (compatible : database.Compatible server (.reserveExecution record audit outbox)) :
    Agreeing (memory.perform (.reserveExecution record audit outbox))
      (database.perform server (.reserveExecution record audit outbox)) := by
  have free : NulFree record.adapter := compatible.1.nulFree (by simp [insertExecutionArguments])
  have stored : memory.executions.get? record.mapKey =
      database.executions.select fun row => row.adapterKey = record.adapterKey :=
    simulates.executions.records record.adapter record.idempotencyKey free
  rw [Memory.perform, Database.perform]
  cases selected : database.executions.select fun row => row.adapterKey = record.adapterKey with
  | some row =>
    rw [selected] at stored
    rw [Database.reserveExecution_taken compatible selected]
    simp only [Memory.reserveExecution, stored]
    exact ⟨rfl, simulates⟩
  | none =>
    rw [selected] at stored
    obtain ⟨executions, next, inserted, appended, reserved⟩ :=
      Database.reserveExecution_new admissible compatible selected
    rw [reserved]
    simp only [Memory.reserveExecution, stored]
    have changed : Simulates
        { memory with
          executions := memory.executions.set record.mapKey record.reserved }
        { database with executions } :=
      { simulates with executions := simulates.executions.insert (by exact free) inserted }
    exact ⟨rfl, changed.append appended⟩

theorem Database.affected_isCurrentExecution {row : ExecutionRecord} (expectedVersion : ℤ)
    (selected : database.executions.select (fun row => row.adapterKey = record.adapterKey) =
      some row) :
    database.executions.affected (isCurrentExecution record expectedVersion) = 0 ↔
      row.stateVersion ≠ expectedVersion := by
  rw [Table.affected_eq_zero_iff_of_fixes (by simp)
    fun _ holds => (isCurrentExecution_iff.mp holds).1, selected]
  simp [isCurrentExecution, Table.key_of_select selected]

theorem Database.completedExecution_eq {row : ExecutionRecord} (version : ℤ)
    (key : row.adapterKey = record.adapterKey) (same : SameExecution row record)
    (updatedAt : Precise record.updatedAt) :
    completedExecution record version row = { record with stateVersion := version } := by
  obtain ⟨id, runID, service, createdAt⟩ := same
  simp only [ExecutionRecord.adapterKey, List.cons.injEq, and_true] at key
  rw [Precise] at updatedAt
  simp only [completedExecution, id, runID, service, createdAt, key, updatedAt]

theorem completeExecution_agree (simulates : Simulates memory database)
    (admissible : database.Admissible (.completeExecution record expectedVersion audit outbox))
    (compatible : database.Compatible server
      (.completeExecution record expectedVersion audit outbox)) :
    Agreeing (memory.perform (.completeExecution record expectedVersion audit outbox))
      (database.perform server (.completeExecution record expectedVersion audit outbox)) := by
  obtain ⟨freshAudits, freshOutbox, -, updatedAt⟩ := admissible
  obtain ⟨accepts, encodes, row, present, key, whenCurrent⟩ := compatible
  obtain ⟨payload, encoded⟩ := Option.ne_none_iff_exists'.mp encodes
  have free : NulFree record.adapter := accepts.nulFree (by simp [updateExecutionArguments])
  have selected : database.executions.select (fun row => row.adapterKey = record.adapterKey) =
      some row := Table.select_key (by simp) present key
  have stored : memory.executions.get? record.mapKey =
      some row :=
    (simulates.executions.records record.adapter record.idempotencyKey free).trans selected
  have affected := Database.affected_isCurrentExecution expectedVersion selected
  rw [Memory.perform, Database.perform]
  by_cases current : row.stateVersion = expectedVersion
  · obtain ⟨positive, same, plain, events⟩ := whenCurrent current
    obtain rfl := Option.some.inj (encoded.symm.trans plain)
    have completed :=
      Database.completedExecution_eq (nextVersion expectedVersion) key same updatedAt
    have freshAudits : (database.replaceExecution record expectedVersion).FreshAudits [audit] :=
      freshAudits
    obtain ⟨next, added, appended⟩ :=
      Database.insertEvents_appended events freshAudits freshOutbox
    have changed : Simulates
        { memory with
          executions := memory.executions.set record.mapKey (record.advanced expectedVersion) }
        (database.replaceExecution record expectedVersion) :=
      { simulates with
        executions := simulates.executions.update free selected current completed }
    simp only [Memory.completeExecution, stored, require, if_pos current,
      Database.completeExecution, Database.storedPayload, encoded, bind, Except.bind,
      Server.execute_of_accepts accepts,
      if_neg (fun none => affected.mp none current), if_pos positive, added]
    exact ⟨rfl, changed.append appended⟩
  · simp only [Memory.completeExecution, stored, require, if_neg current,
      Database.completeExecution, Database.storedPayload, encoded, bind, Except.bind,
      Server.execute_of_accepts accepts,
      if_pos (affected.mpr current)]
    exact ⟨rfl, simulates⟩

end Executions

section Outbox

variable {id : String} {publishedAt : Time}

theorem markOutboxPublished_agree (simulates : Simulates memory database)
    (compatible : database.Compatible server (.markOutboxPublished id publishedAt)) :
    Agreeing (memory.perform (.markOutboxPublished id publishedAt))
      (database.perform server (.markOutboxPublished id publishedAt)) := by
  obtain ⟨accepts, unpublished⟩ := compatible
  have sameIDs : memory.outbox.map OutboxEvent.id =
      database.outboxEvents.rows.map OutboxEvent.id := by
    rw [Database.map_id_eq, simulates.outbox, ← Database.map_id_eq]
  have distinct : (memory.outbox.map OutboxEvent.id).Nodup := by
    rw [sameIDs]
    exact database.outboxEvents.unique _ (by simp)
  rw [Memory.perform, Database.perform]
  rcases markPublished_cases id publishedAt memory.outbox distinct with
    ⟨absent, missing⟩ | ⟨present, marked, published, entries⟩
  · have affected : database.outboxEvents.affected
        (fun row => row.id = id && row.publishedAt = none) = 0 := by
      rw [Table.affected_eq_zero_iff, Table.select_eq_none_iff]
      intro row member
      have differs : row.id ≠ id := fun same =>
        absent (sameIDs ▸ same ▸ List.mem_map_of_mem member)
      simp [differs]
    simp only [Memory.markOutboxPublished, missing, Database.markOutboxPublished,
      Server.execute_of_accepts accepts, if_pos affected]
    exact ⟨rfl, simulates⟩
  · rw [sameIDs] at present
    obtain ⟨row, member, same⟩ := List.mem_map.mp present
    have affected : database.outboxEvents.affected
        (fun row => row.id = id && row.publishedAt = none) ≠ 0 := by
      rw [Ne, Table.affected_eq_zero_iff, Table.select_eq_none_iff]
      intro none
      simpa [same, (unpublished row member same).1] using none row member
    have counted : ∀ row ∈ database.outboxEvents.rows,
        (row.id = id && row.publishedAt = none : Bool) = true →
          server.Accepts [.integer (row.attempts + 1)] := by
      intro row member holds
      simp only [Bool.and_eq_true, decide_eq_true_eq] at holds
      exact (unpublished row member holds.1).2
    simp only [Memory.markOutboxPublished, published, Database.markOutboxPublished,
      Server.execute_of_accepts accepts, if_neg affected, require, if_pos counted]
    refine ⟨rfl, { simulates with outbox := ?_ }⟩
    exact (entries.trans (by rw [simulates.outbox])).trans (pending_touch id publishedAt _).symm

end Outbox

section Journal

variable {record : RunnerActionRecord} {audit : AuditEvent}

theorem Simulates.checkJournal (simulates : Simulates memory database) :
    memory.checkJournal = .ok () := by
  rw [Memory.checkJournal, simulates.available]

theorem getRunnerAction_agree (simulates : Simulates memory database)
    {tenantID runnerGroup nonce : String}
    (accepts : server.Accepts [.text tenantID, .text runnerGroup, .text nonce]) :
    memory.getRunnerAction tenantID runnerGroup nonce =
      database.getRunnerAction server tenantID runnerGroup nonce := by
  have records := simulates.journal.records tenantID runnerGroup nonce
    (accepts.nulFree (by simp)) (accepts.nulFree (by simp))
  cases selected : database.runnerJournal.select
      fun row => row.primaryKey = [tenantID, runnerGroup, nonce] with
  | none | some row =>
    rw [selected] at records
    simp [Memory.getRunnerAction, simulates.checkJournal, records, Database.getRunnerAction,
      Server.execute_of_accepts accepts, Database.selectAction, selected, bind, Except.bind]

variable {existing : RunnerActionRecord}

theorem Memory.reserveRunnerAction_nonce (available : memory.checkJournal = .ok ())
    (taken : memory.runnerActions.get? record.nonceKey = some existing) :
    memory.reserveRunnerAction record audit = .ok ((existing, false), memory) := by
  simp only [reserveRunnerAction, available, taken]
  rfl

section

variable (available : memory.checkJournal = .ok ())
  (unused : memory.runnerActions.get? record.nonceKey = none)

include available unused

theorem Memory.reserveRunnerAction_key {nonceKey : String}
    (taken : memory.runnerByKey.get? record.claimKey = some nonceKey)
    (stored : memory.runnerActions.get? nonceKey = some existing) :
    memory.reserveRunnerAction record audit = .ok ((existing, false), memory) := by
  simp only [reserveRunnerAction, available, unused, bind, Except.bind]
  split
  · next other found =>
    rw [taken] at found
    cases found
    simp [indexedAction, stored]
  · next unclaimed =>
    rw [taken] at unclaimed
    cases unclaimed

theorem Memory.reserveRunnerAction_new
    (unclaimed : memory.runnerByKey.get? record.claimKey = none) :
    memory.reserveRunnerAction record audit =
      .ok ((record.reserved, true),
        (memory.insertAction
          record.reserved).appendAudit audit) := by
  simp only [reserveRunnerAction, available, unused, bind, Except.bind]
  split
  · next other found =>
    rw [unclaimed] at found
    cases found
  · rfl

end

theorem Database.reserveRunnerAction_taken
    (compatible : database.Compatible server (.reserveRunnerAction record audit))
    (present : row ∈ database.runnerJournal.rows)
    (clash : row.primaryKey = record.primaryKey ∨ row.requestKey = record.requestKey) :
    database.reserveRunnerAction server record audit =
      match database.runnerJournal.select fun row => row.primaryKey = record.primaryKey with
      | some existing => .ok ((existing, false), database)
      | none =>
        (database.selectAction fun row => row.requestKey = record.requestKey).map
          fun existing => ((existing, false), database) := by
  have reserves : server.Accepts (insertActionArguments
      record.reserved) := compatible.1
  have refused : database.runnerJournal.insert
      { record with
        status := some .reserved
        stateVersion := 1
        createdAt := microseconds record.createdAt
        updatedAt := microseconds record.updatedAt } = none := by
    rw [Table.insert_eq_none_iff]
    rcases clash with same | same
    · exact ⟨RunnerActionRecord.primaryKey, by simp, row, present, same⟩
    · exact ⟨RunnerActionRecord.requestKey, by simp, row, present, same⟩
  simp only [reserveRunnerAction, Server.execute_of_accepts reserves, refused]
  cases database.runnerJournal.select fun row => row.primaryKey = record.primaryKey with
  | some existing => rfl
  | none =>
    cases database.selectAction fun row => row.requestKey = record.requestKey with
    | error error | ok existing => rfl

theorem Database.reserveRunnerAction_new
    (admissible : database.Admissible (.reserveRunnerAction record audit))
    (compatible : database.Compatible server (.reserveRunnerAction record audit))
    (unused : database.runnerJournal.select (fun row => row.primaryKey = record.primaryKey) = none)
    (unclaimed : database.runnerJournal.select (fun row => row.requestKey = record.requestKey) =
      none) :
    ∃ runnerJournal next,
      database.runnerJournal.insert record.reserved =
        some runnerJournal ∧
      Appended { database with runnerJournal } next [audit] [] ∧
      database.reserveRunnerAction server record audit =
        .ok ((record.reserved, true), next) := by
  obtain ⟨freshAudits, createdAt, updatedAt⟩ := admissible
  have reserves : server.Accepts (insertActionArguments
      record.reserved) := compatible.1
  have fresh : ∀ key ∈ [RunnerActionRecord.primaryKey, RunnerActionRecord.requestKey],
      key record.reserved ∉
        database.runnerJournal.rows.map key := by
    rw [List.forall_mem_cons, List.forall_mem_singleton]
    exact ⟨Table.not_mem_of_select_eq_none unused, Table.not_mem_of_select_eq_none unclaimed⟩
  obtain ⟨runnerJournal, inserted⟩ := Table.exists_insert fresh
  have freshAudits : Database.FreshAudits { database with runnerJournal } [audit] := freshAudits
  obtain ⟨next, added, appended⟩ := insertAudit_appended compatible.2 freshAudits.not_mem
  refine ⟨runnerJournal, next, inserted, appended, ?_⟩
  rw [Precise] at createdAt updatedAt
  simp only [reserveRunnerAction, Server.execute_of_accepts reserves, createdAt, updatedAt,
    inserted, added]
  rfl

theorem reserveRunnerAction_agree (simulates : Simulates memory database)
    (admissible : database.Admissible (.reserveRunnerAction record audit))
    (compatible : database.Compatible server (.reserveRunnerAction record audit)) :
    Agreeing (memory.perform (.reserveRunnerAction record audit))
      (database.perform server (.reserveRunnerAction record audit)) := by
  have free : NulFree record.tenantID ∧ NulFree record.runnerGroup :=
    ⟨compatible.1.nulFree (by simp [insertActionArguments]),
      compatible.1.nulFree (by simp [insertActionArguments])⟩
  have byNonce : memory.runnerActions.get? record.nonceKey =
        database.runnerJournal.select fun row => row.primaryKey = record.primaryKey :=
    simulates.journal.records record.tenantID record.runnerGroup record.nonce free.1 free.2
  have byKey : memory.runnerByKey.get? record.claimKey =
        (database.runnerJournal.select fun row => row.requestKey = record.requestKey).map
          fun row => row.nonceKey :=
    simulates.journal.requests record.tenantID record.runnerGroup record.idempotencyKey
      free.1 free.2
  rw [Memory.perform, Database.perform]
  cases nonce : database.runnerJournal.select fun row => row.primaryKey = record.primaryKey with
  | some row =>
    rw [nonce] at byNonce
    obtain ⟨present, -⟩ := Table.mem_of_select nonce
    rw [Memory.reserveRunnerAction_nonce simulates.checkJournal byNonce,
      Database.reserveRunnerAction_taken compatible present (Or.inl (Table.key_of_select nonce)),
      nonce]
    exact ⟨rfl, simulates⟩
  | none =>
    rw [nonce] at byNonce
    cases key : database.runnerJournal.select fun row => row.requestKey = record.requestKey with
    | some row =>
      rw [key] at byKey
      obtain ⟨present, -⟩ := Table.mem_of_select key
      have rowFree := simulates.journal.free row present
      have stored : memory.runnerActions.get?
          row.nonceKey = some row :=
        (simulates.journal.records row.tenantID row.runnerGroup row.nonce rowFree.1
          rowFree.2).trans (Table.select_key (by simp) present rfl)
      rw [Memory.reserveRunnerAction_key simulates.checkJournal byNonce byKey stored,
        Database.reserveRunnerAction_taken compatible present (Or.inr (Table.key_of_select key)),
        nonce, Database.selectAction, key]
      exact ⟨rfl, simulates⟩
    | none =>
      rw [key] at byKey
      obtain ⟨runnerJournal, next, inserted, appended, reserved⟩ :=
        Database.reserveRunnerAction_new admissible compatible nonce key
      have changed : Simulates
          (memory.insertAction record.reserved)
          { database with runnerJournal } :=
        { simulates with journal := simulates.journal.insert (by exact free) inserted }
      rw [Memory.reserveRunnerAction_new simulates.checkJournal byNonce byKey, reserved]
      exact ⟨rfl, changed.appendAudit appended⟩

theorem Database.affected_isCurrentAction (expected : ℤ)
    (selected : database.runnerJournal.select (fun row => row.primaryKey = record.primaryKey) =
      some row) :
    database.runnerJournal.affected (isCurrentAction record expected) = 0 ↔
      row.stateVersion ≠ expected := by
  rw [Table.affected_eq_zero_iff_of_fixes (by simp)
    fun _ holds => (isCurrentAction_iff.mp holds).1, selected]
  simp [isCurrentAction, Table.key_of_select selected]

theorem Database.completedAction_eq (version : ℤ) (key : row.primaryKey = record.primaryKey)
    (same : SameAction row record) (updatedAt : Precise record.updatedAt) :
    completedAction record version row = { record with stateVersion := version } := by
  obtain ⟨grantID, runID, stepID, idempotencyKey, requestHash, target, action, createdAt⟩ := same
  simp only [RunnerActionRecord.primaryKey, List.cons.injEq, and_true] at key
  rw [Precise] at updatedAt
  simp only [completedAction, grantID, runID, stepID, idempotencyKey, requestHash, target, action,
    createdAt, key, updatedAt]

theorem completeRunnerAction_agree (simulates : Simulates memory database) {expected : ℤ}
    (admissible : database.Admissible (.completeRunnerAction record expected audit))
    (compatible : database.Compatible server (.completeRunnerAction record expected audit)) :
    Agreeing (memory.perform (.completeRunnerAction record expected audit))
      (database.perform server (.completeRunnerAction record expected audit)) := by
  obtain ⟨freshAudits, updatedAt⟩ := admissible
  obtain ⟨accepts, row, present, key, whenCurrent⟩ := compatible
  have free : NulFree record.tenantID ∧ NulFree record.runnerGroup :=
    ⟨accepts.nulFree (by simp [updateActionArguments]),
      accepts.nulFree (by simp [updateActionArguments])⟩
  have selected : database.runnerJournal.select (fun row => row.primaryKey = record.primaryKey) =
      some row := Table.select_key (by simp) present key
  have stored : memory.runnerActions.get? record.nonceKey = some row :=
    (simulates.journal.records record.tenantID record.runnerGroup record.nonce free.1
      free.2).trans selected
  have affected := Database.affected_isCurrentAction expected selected
  rw [Memory.perform, Database.perform]
  by_cases current : row.stateVersion = expected
  · obtain ⟨positive, same, status, audited⟩ := whenCurrent current
    have completed := Database.completedAction_eq (nextVersion expected) key same updatedAt
    have freshAudits : (database.replaceAction record expected).FreshAudits [audit] := freshAudits
    obtain ⟨next, added, appended⟩ := Database.insertAudit_appended audited freshAudits.not_mem
    have changed : Simulates
        (memory.replaceAction (record.advanced expected))
        (database.replaceAction record expected) :=
      { simulates with
        journal := simulates.journal.update free selected current completed }
    simp only [Memory.completeRunnerAction, simulates.checkJournal, stored, require,
      if_pos current, Database.completeRunnerAction, Server.execute_of_accepts accepts,
      if_neg (fun none => affected.mp none current), if_pos (And.intro status positive), added]
    exact ⟨rfl, changed.appendAudit appended⟩
  · simp only [Memory.completeRunnerAction, simulates.checkJournal, stored, require,
      if_neg current, Database.completeRunnerAction, Server.execute_of_accepts accepts,
      if_pos (affected.mpr current)]
    exact ⟨rfl, simulates⟩

end Journal

theorem perform_agree {call : StoreCall} (simulates : Simulates memory database)
    (admissible : database.Admissible call) (compatible : database.Compatible server call) :
    Agreeing (memory.perform call) (database.perform server call) := by
  cases call with
  | createRunAtomic => exact createRunAtomic_agree simulates admissible compatible
  | getRun => exact ⟨getRun_agree simulates compatible, simulates⟩
  | updateRunAtomic => exact updateRunAtomic_agree simulates admissible compatible
  | reserveExecution => exact reserveExecution_agree simulates admissible compatible
  | completeExecution => exact completeExecution_agree simulates admissible compatible
  | getExecution => exact ⟨getExecution_agree simulates compatible, simulates⟩
  | markOutboxPublished => exact markOutboxPublished_agree simulates compatible
  | reserveRunnerAction => exact reserveRunnerAction_agree simulates admissible compatible
  | getRunnerAction => exact ⟨getRunnerAction_agree simulates compatible, simulates⟩
  | completeRunnerAction => exact completeRunnerAction_agree simulates admissible compatible

theorem answersAgree_of_simulates {calls : List StoreCall} (simulates : Simulates memory database)
    (admissible : Database.Throughout server Database.Admissible database calls)
    (compatible : Database.Throughout server (Database.Compatible server) database calls) :
    AnswersAgree server memory database calls := by
  induction calls generalizing memory database with
  | nil => trivial
  | cons call rest ih =>
    obtain ⟨first, later⟩ := admissible
    obtain ⟨firstCompatible, laterCompatible⟩ := compatible
    obtain ⟨same, simulated⟩ := perform_agree simulates first firstCompatible
    exact ⟨by rw [same], ih simulated later laterCompatible⟩

theorem simulates_empty : Simulates newMemory {} where
  runs := ⟨fun _ => rfl, fun _ => rfl, by simp⟩
  executions := ⟨fun _ _ _ => rfl, by simp⟩
  journal := ⟨fun _ _ _ _ _ => rfl, fun _ _ _ _ _ => rfl, by simp⟩
  outbox := rfl
  available := rfl

/-- From empty stores, compatible calls are answered alike by both stores. -/
theorem stores_agree (server : Server) (calls : List StoreCall)
    (admissible : Database.Throughout server Database.Admissible {} calls)
    (compatible : Database.Throughout server (Database.Compatible server) {} calls) :
    AnswersAgree server newMemory {} calls :=
  answersAgree_of_simulates simulates_empty admissible compatible

/-- A server with the ranges of the column types, which represents every time and document. -/
def plainServer : Server where
  represents
    | .text value => decide ('\x00' ∉ value.toList)
    | .integer value => decide (-2 ^ 31 ≤ value ∧ value < 2 ^ 31)
    | .bigint value => decide (-2 ^ 63 ≤ value ∧ value < 2 ^ 63)
    | .timestamptz _ => true
    | .jsonb _ => true
  not_mem_of_represents _ represented := of_decide_eq_true represented

def publishedOnce : List StoreCall :=
  [.createRunAtomic pilotRun [] [], .getRun "run-1",
    .markOutboxPublished "projection/run-1/1" 5000]

theorem stores_agree_publishedOnce : AnswersAgree plainServer newMemory {} publishedOnce := by
  refine stores_agree plainServer publishedOnce ?_ ?_
  · decide +kernel
  · decide +kernel

/-- The second publication succeeds in memory and finds no event in the database. -/
theorem second_publication_differs :
    Database.Throughout plainServer Database.Admissible {}
        (publishedOnce ++ [.markOutboxPublished "projection/run-1/1" 6000]) ∧
      ¬AnswersAgree plainServer newMemory {}
        (publishedOnce ++ [.markOutboxPublished "projection/run-1/1" 6000]) := by
  constructor
  · decide +kernel
  · intro agree
    obtain ⟨-, -, -, last, -⟩ := agree
    revert last
    decide +kernel

end Themisy.Store
